import FerroEngine.PgBind
import FerroEngine.PgVector

set_option autoImplicit false

/-! # The pre-flight and the encoders of PostgreSQL parameters -/

namespace FerroEngine.PgBindLockstep

open BinaryFloat SqlMessages PgBind MessagePack
open MessagePackReader (bigEndianValue signed bigEndianValue_bigEndian)

/-! ## Domains -/

/-- The number of domains around a type. -/
def depth : PgType → Nat
  | .domain _ inner => depth inner + 1
  | _ => 0

/-- The type under all domains. -/
def baseType : PgType → PgType
  | .domain _ inner => baseType inner
  | ty => ty

theorem baseType_plain (ty : PgType) : (baseType ty).isDomain = false := by
  induction ty with
  | builtin b => rfl
  | other name => rfl
  | domain name inner ih => exact ih

theorem resolveLoop_plain {ty : PgType} (plain : ty.isDomain = false) (n : Nat) :
    resolveLoop n ty = ty := by
  cases ty with
  | domain name inner => cases plain
  | _ => cases n <;> rfl

theorem resolveLoop_shallow {n : Nat} {ty : PgType} (shallow : depth ty ≤ n) :
    resolveLoop n ty = baseType ty := by
  induction ty generalizing n with
  | builtin b => exact resolveLoop_plain rfl n
  | other name => exact resolveLoop_plain rfl n
  | domain name inner ih =>
    cases n with
    | zero => cases shallow
    | succ n => exact ih (Nat.le_of_succ_le_succ shallow)

theorem resolveLoop_deep {n : Nat} {ty : PgType} (deep : n < depth ty) :
    (resolveLoop n ty).isDomain = true := by
  induction ty generalizing n with
  | builtin b => cases deep
  | other name => cases deep
  | domain name inner ih =>
    cases n with
    | zero => rfl
    | succ n => exact ih (Nat.lt_of_succ_lt_succ deep)

theorem resolveDomain_base {ty : PgType} (shallow : depth ty ≤ maxDomainDepth) :
    resolveDomain ty = resolveDomain (baseType ty) := by
  rw [resolveDomain, resolveDomain, resolveLoop_shallow shallow,
    resolveLoop_plain (baseType_plain ty)]

theorem isOneOf_domain {types : List Builtin} {ty : PgType} (domain : ty.isDomain = true) :
    ty.isOneOf types = false := by
  cases ty with
  | domain name inner => rfl
  | _ => cases domain

/-! ## The documented encoders -/

/-- The encoder takes the types, and encodes in the binary format. -/
structure Documents {α : Type} (encoder : Encoder α) (types : PgType → Bool) (fits : α → Prop)
    (out : PgType → α → PgBind.Bytes) : Prop where
  accepts : ∀ ty, encoder.accepts ty = types ty
  encodes : ∀ ty v, types ty = true → fits v → encoder.toSql v ty = .ok (out ty v)
  binary : ∀ ty, encoder.encodeFormat ty = .binary

/-- The extension types that a string is bound to by their names. -/
def nameKeyed : List String :=
  ["citext", "ltree", "lquery", "ltxtquery"]

/-- Those with a version byte. -/
def versioned : List String :=
  ["ltree", "lquery", "ltxtquery"]

def stringTypes (ty : PgType) : Bool :=
  ty.isOneOf [.varchar, .text, .bpchar, .name, .unknown] || nameKeyed.contains ty.name

def stringPayload (ty : PgType) (s : String) : PgBind.Bytes :=
  if versioned.contains ty.name then 1 :: asBytes s else asBytes s

/-- Two's complement. -/
def intPayload (width : Nat) (n : Int) : PgBind.Bytes :=
  bigEndian width (n % 2 ^ (8 * width)).toNat

def IntFits (width : Nat) (n : Int) : Prop :=
  -2 ^ (8 * width - 1) ≤ n ∧ n < 2 ^ (8 * width - 1)

/-- What `postgres-types` documents of the encoders that the binds delegate to. -/
structure Documented (pg : PostgresTypes) : Prop where
  bool : Documents pg.bool (·.isOneOf [.bool]) (fun _ => True) fun _ b => [if b then 1 else 0]
  i16 : Documents pg.i16 (·.isOneOf [.int2]) (IntFits 2) fun _ => intPayload 2
  i32 : Documents pg.i32 (·.isOneOf [.int4]) (IntFits 4) fun _ => intPayload 4
  i64 : Documents pg.i64 (·.isOneOf [.int8]) (IntFits 8) fun _ => intPayload 8
  u32 : Documents pg.u32 (·.isOneOf [.oid]) (fun n => 0 ≤ n ∧ n < 2 ^ 32) fun _ n =>
    bigEndian 4 n.toNat
  f32 : Documents pg.f32 (·.isOneOf [.float4]) (fun _ => True) fun _ => bigEndian 4
  f64 : Documents pg.f64 (·.isOneOf [.float8]) (fun _ => True) fun _ => bigEndian 8
  string : Documents pg.string stringTypes (fun _ => True) stringPayload
  bytes : Documents pg.bytes (·.isOneOf [.bytea]) (fun _ => True) fun _ b => b

theorem Documents.delegated_ok {α : Type} {encoder : Encoder α} {types : PgType → Bool}
    {fits : α → Prop} {out : PgType → α → PgBind.Bytes} (documents : Documents encoder types fits out)
    {base : PgType} {v : α} (taken : types base = true) (fit : fits v) :
    delegated encoder v base = .ok (some (out base v)) := by
  rw [delegated, documents.encodes base v taken fit]

/-! ## Acceptance -/

variable {pg : PostgresTypes}

theorem checkParam_iff (v : Value) (ty : PgType) :
    checkParam pg v ty = .ok () ↔
      accepted pg ty v = true ∧ checkSpecial v (resolveDomain ty) = .ok () ∧
        checkRange v (resolveDomain ty) = .ok () := by
  unfold checkParam
  cases accepted pg ty v with
  | false => exact ⟨nofun, fun both => nomatch both.1⟩
  | true =>
    cases checkSpecial v (resolveDomain ty) with
    | error refusal => exact ⟨nofun, fun both => nomatch both.2.1⟩
    | ok b => exact ⟨fun done => ⟨rfl, rfl, done⟩, fun both => both.2.2⟩

/-- The pre-flight asks the newtype that the value is boxed as. -/
theorem accepts_boxed (v : Value) (ty : PgType) :
    (valueToBoxed pg v).accepts ty = accepted pg ty v := by
  cases v <;> rfl

/-- The acceptance and the encoders see the resolved type only. -/
theorem accepted_resolved {ty other : PgType} (same : resolveDomain ty = resolveDomain other)
    (v : Value) : accepted pg ty v = accepted pg other v := by
  cases v <;>
    simp only [accepted, domainAwareAccepts, pgIntAccepts, pgFloatAccepts, pgTextAccepts,
      canonicalTextAccepts, pgU64TextAccepts, same]

theorem encodeFormat_resolved {ty other : PgType} (same : resolveDomain ty = resolveDomain other)
    (v : Value) : (valueToBoxed pg v).encodeFormat ty = (valueToBoxed pg v).encodeFormat other := by
  cases v <;>
    simp only [valueToBoxed, pgNull, domainAwareParam, pgInt, pgFloat, pgText, pgU64Text,
      canonicalTextParam, same]

/-- What is written, whatever an error says. -/
def ToSql.written (boxed : ToSql) (ty : PgType) : Option (Option PgBind.Bytes) :=
  (boxed.toSqlChecked ty).toOption

theorem toSql_resolved {ty other : PgType} (same : resolveDomain ty = resolveDomain other)
    (v : Value) : ((valueToBoxed pg v).toSql ty).toOption =
      ((valueToBoxed pg v).toSql other).toOption := by
  cases v with
  | i64 n =>
    dsimp only [valueToBoxed, pgInt]
    rw [same]
    cases resolveDomain other with
    | builtin b => cases b <;> rfl
    | _ => rfl
  | f64 bits =>
    dsimp only [valueToBoxed, pgFloat]
    rw [same]
    cases resolveDomain other with
    | builtin b => cases b <;> rfl
    | _ => rfl
  | _ => simp only [valueToBoxed, pgNull, domainAwareParam, pgText, pgU64Text, canonicalTextParam, same]

theorem written_resolved {ty other : PgType} (same : resolveDomain ty = resolveDomain other)
    (v : Value) : ToSql.written (valueToBoxed pg v) ty = ToSql.written (valueToBoxed pg v) other := by
  unfold ToSql.written ToSql.toSqlChecked
  rw [accepts_boxed, accepts_boxed, accepted_resolved same]
  cases accepted pg other v with
  | false => rfl
  | true => exact toSql_resolved same v

/-! ## Integers -/

/-- A payload that the server reads as the integer, in the format it is sent in. -/
def Carries (n : Int) (payload : PgBind.Bytes) : PgType → Format → Prop
  | .builtin .int2, .binary => payload.length = 2 ∧ signed 2 (bigEndianValue payload) = n
  | .builtin .int4, .binary => payload.length = 4 ∧ signed 4 (bigEndianValue payload) = n
  | .builtin .int8, .binary => payload.length = 8 ∧ signed 8 (bigEndianValue payload) = n
  | .builtin .oid, .binary => payload.length = 4 ∧ (bigEndianValue payload : Int) = n
  | .builtin .bool, .binary => payload = [0] ∧ n = 0 ∨ payload = [1] ∧ n = 1
  | .builtin .float8, .binary =>
    payload.length = 8 ∧ Equals binary64 (bigEndianValue payload) n
  | .builtin .text, .text | .builtin .varchar, .text | .builtin .numeric, .text =>
    ∃ number, DecimalText.Digits number ∧ number ≠ [] ∧
      (payload = number ∧ n = DecimalText.value number ∨
        payload = 45 :: number ∧ n = -DecimalText.value number)
  | _, _ => False

theorem intPayload_reads {width : Nat} (positive : 0 < width) {n : Int} (fits : IntFits width n) :
    (intPayload width n).length = width ∧ signed width (bigEndianValue (intPayload width n)) = n := by
  refine ⟨bigEndian_length _ _, ?_⟩
  have base : (256 : Nat) ^ width = 2 ^ (8 * width) := by rw [Nat.pow_mul]
  have inside : (n % 2 ^ (8 * width)).toNat < 2 ^ (8 * width) := by
    have low := Int.emod_nonneg n (b := 2 ^ (8 * width)) (by positivity)
    have high := Int.emod_lt_of_pos n (b := 2 ^ (8 * width)) (by positivity)
    exact (Int.toNat_lt low).mpr (by push_cast; exact high)
  rw [intPayload, bigEndianValue_bigEndian, base, Nat.mod_eq_of_lt inside]
  exact PgVector.signed_toNat positive fits.1 fits.2

theorem intText_reads (n : Int) :
    ∃ number, DecimalText.Digits number ∧ number ≠ [] ∧
      (intText n = number ∧ n = DecimalText.value number ∨
        intText n = 45 :: number ∧ n = -DecimalText.value number) := by
  obtain ⟨all, some_⟩ := DecimalText.digits_decimal n.natAbs
  have back := DecimalText.value_decimal n.natAbs
  refine ⟨DecimalText.decimal n.natAbs, all, some_, ?_⟩
  unfold intText
  by_cases negative : n < 0
  · rw [if_pos negative, back]
    exact .inr ⟨rfl, by omega⟩
  · rw [if_neg negative, back]
    exact .inl ⟨rfl, by omega⟩

theorem float8_reads {n : Int} (range : IntFits 8 n) (exact' : i64IsExactAsF64 n = true) :
    Equals binary64 (bigEndianValue (bigEndian 8 (ofInt binary64 n))) n := by
  have below := ofInt_lt binary64 n
  have word : 2 * binary64.signBit = 256 ^ 8 := by decide
  rw [word] at below
  have small : n.natAbs.log2 < 64 := by
    have bound : n.natAbs < 2 ^ 64 := by
      unfold IntFits at range
      omega
    by_cases zero : n.natAbs = 0
    · rw [zero]
      decide
    · exact (Nat.log2_lt zero).mpr bound
  have fits : Fits binary64 n := by
    refine ⟨by decide, ?_⟩
    have room : 2 ^ (binary64.exponent - 1) = 1024 := by decide
    omega
  rw [bigEndianValue_bigEndian, Nat.mod_eq_of_lt below]
  exact ofInt_equals fits (of_decide_eq_true exact')

theorem tryInto_ok {bits : Nat} {n : Int} {e : Refusal}
    (passed : (match tryInto bits n with | .error _ => .error e | .ok _ => .ok ()) =
      Except.ok (α := Unit) ()) : tryInto bits n = .ok n ∧ -2 ^ (bits - 1) ≤ n ∧ n < 2 ^ (bits - 1) := by
  unfold tryInto at passed ⊢
  by_cases inside : -2 ^ (bits - 1) ≤ n ∧ n < 2 ^ (bits - 1)
  · rw [if_pos inside]
    exact ⟨rfl, inside⟩
  · rw [if_neg inside] at passed
    cases passed

theorem tryIntoU32_ok {n : Int} {e : Refusal}
    (passed : (match tryIntoU32 n with | .error _ => .error e | .ok _ => .ok ()) =
      Except.ok (α := Unit) ()) : tryIntoU32 n = .ok n ∧ 0 ≤ n ∧ n < 2 ^ 32 := by
  unfold tryIntoU32 at passed ⊢
  by_cases inside : 0 ≤ n ∧ n < 2 ^ 32
  · rw [if_pos inside]
    exact ⟨rfl, inside⟩
  · rw [if_neg inside] at passed
    cases passed

/-- An integer that passes is written as itself. -/
theorem int_written (documented : Documented pg) {n : Int} (range : IntFits 8 n) {ty : PgType}
    (taken : pgIntAccepts ty = true) (passed : checkRange (.i64 n) (resolveDomain ty) = .ok ()) :
    ∃ payload, (pgInt pg n).toSql ty = .ok (some payload) ∧
      Carries n payload (resolveDomain ty) ((pgInt pg n).encodeFormat ty) := by
  unfold pgIntAccepts at taken
  dsimp only [pgInt]
  cases base : resolveDomain ty with
  | other name =>
    rw [base] at taken
    cases taken
  | domain name inner =>
    rw [base] at taken
    cases taken
  | builtin b =>
    rw [base] at taken passed
    cases b with
    | int2 =>
      obtain ⟨into, fits⟩ := tryInto_ok passed
      dsimp only
      rw [into, Except.bind, documented.i16.delegated_ok rfl fits]
      exact ⟨_, rfl, intPayload_reads (by decide) fits⟩
    | int4 =>
      obtain ⟨into, fits⟩ := tryInto_ok passed
      dsimp only
      rw [into, Except.bind, documented.i32.delegated_ok rfl fits]
      exact ⟨_, rfl, intPayload_reads (by decide) fits⟩
    | int8 =>
      dsimp only
      rw [documented.i64.delegated_ok rfl range]
      exact ⟨_, rfl, intPayload_reads (by decide) range⟩
    | oid =>
      obtain ⟨into, low, high⟩ := tryIntoU32_ok passed
      have small : n.toNat < 256 ^ 4 := by omega
      dsimp only
      rw [into, Except.bind, documented.u32.delegated_ok rfl ⟨low, high⟩]
      refine ⟨_, rfl, bigEndian_length _ _, ?_⟩
      rw [bigEndianValue_bigEndian, Nat.mod_eq_of_lt small, Int.toNat_of_nonneg low]
    | float8 =>
      have exact' : i64IsExactAsF64 n = true := by
        change (if i64IsExactAsF64 n = true then Except.ok () else .error _) = _ at passed
        by_contra no
        rw [if_neg no] at passed
        cases passed
      dsimp only
      rw [if_pos exact', documented.f64.delegated_ok rfl trivial]
      exact ⟨_, rfl, bigEndian_length _ _, float8_reads range exact'⟩
    | bool =>
      change (if n ≠ 0 ∧ n ≠ 1 then Except.error _ else .ok ()) = _ at passed
      dsimp only
      by_cases zero : n = 0
      · rw [if_pos zero, documented.bool.delegated_ok rfl trivial]
        exact ⟨_, rfl, .inl ⟨rfl, zero⟩⟩
      · have one : n = 1 := by
          by_contra other
          rw [if_pos ⟨zero, other⟩] at passed
          cases passed
        rw [if_neg zero, if_pos one, documented.bool.delegated_ok rfl trivial]
        exact ⟨_, rfl, .inr ⟨rfl, one⟩⟩
    | text => exact ⟨_, rfl, intText_reads n⟩
    | varchar => exact ⟨_, rfl, intText_reads n⟩
    | numeric => exact ⟨_, rfl, intText_reads n⟩
    | _ => cases taken

theorem float_written (documented : Documented pg) (bits : UInt64) {ty : PgType}
    (taken : pgFloatAccepts ty = true) : ∃ payload, (pgFloat pg bits).toSql ty = .ok (some payload) := by
  unfold pgFloatAccepts at taken
  dsimp only [pgFloat]
  cases base : resolveDomain ty with
  | other name =>
    rw [base] at taken
    cases taken
  | domain name inner =>
    rw [base] at taken
    cases taken
  | builtin b =>
    rw [base] at taken
    cases b with
    | float4 => exact ⟨_, documented.f32.delegated_ok rfl trivial⟩
    | float8 => exact ⟨_, documented.f64.delegated_ok rfl trivial⟩
    | numeric => exact ⟨_, rfl⟩
    | _ => cases taken

theorem text_written (documented : Documented pg) (s : String) {ty : PgType}
    (taken : pgTextAccepts pg ty = true) : ∃ payload, (pgText pg s).toSql ty = .ok (some payload) := by
  unfold pgTextAccepts at taken
  dsimp only [pgText]
  cases target : isTextInputTarget (resolveDomain ty) with
  | true => exact ⟨_, if_pos rfl⟩
  | false =>
    rw [target, Bool.or_false, documented.string.accepts] at taken
    rw [if_neg Bool.false_ne_true, documented.string.delegated_ok taken trivial]
    exact ⟨_, rfl⟩

/-- A machine integer is in range. -/
def ValidInt : Value → Prop
  | .i64 n => IntFits 8 n
  | _ => True

/-- What the pre-flight accepts is encoded. -/
theorem accepted_written (documented : Documented pg) {v : Value} (valid : ValidInt v) {ty : PgType}
    (passed : checkParam pg v ty = .ok ()) : ∃ out, (valueToBoxed pg v).toSqlChecked ty = .ok out := by
  obtain ⟨taken, _, range⟩ := (checkParam_iff v ty).mp passed
  rw [ToSql.toSqlChecked, accepts_boxed, if_pos taken]
  cases v with
  | null => exact ⟨none, rfl⟩
  | bool b =>
    have known := (documented.bool.accepts _).symm.trans taken
    exact ⟨_, documented.bool.delegated_ok known trivial⟩
  | bytes b =>
    have known := (documented.bytes.accepts _).symm.trans taken
    exact ⟨_, documented.bytes.delegated_ok known trivial⟩
  | i64 n =>
    obtain ⟨payload, done, _⟩ := int_written documented valid taken range
    exact ⟨_, done⟩
  | f64 bits =>
    obtain ⟨payload, done⟩ := float_written documented bits taken
    exact ⟨_, done⟩
  | text s =>
    obtain ⟨payload, done⟩ := text_written documented s taken
    exact ⟨_, done⟩
  | u64 n => cases taken
  | _ => exact ⟨_, rfl⟩

/-! ## Past the bound -/

def IsTextValue : Value → Prop
  | .text _ => True
  | _ => False

/-- A domain where the resolution stops is accepted by its name only. -/
theorem accepted_deep (documented : Documented pg) {ty : PgType}
    (deep : (resolveDomain ty).isDomain = true) (v : Value) :
    accepted pg ty v = true ↔
      v = .null ∨ IsTextValue v ∧ nameKeyed.contains (resolveDomain ty).name = true := by
  have refused (types : List Builtin) : (resolveDomain ty).isOneOf types = false :=
    isOneOf_domain deep
  cases v with
  | null => exact ⟨fun _ => .inl rfl, fun _ => rfl⟩
  | text s =>
    rw [accepted, pgTextAccepts, isTextInputTarget, documented.string.accepts, stringTypes, refused,
      refused, Bool.false_or, Bool.or_false]
    exact ⟨fun named => .inr ⟨trivial, named⟩, fun either => (either.resolve_left nofun).2⟩
  | _ =>
    simp only [accepted, domainAwareAccepts, pgIntAccepts, pgFloatAccepts, canonicalTextAccepts,
      pgU64TextAccepts, documented.bool.accepts, documented.bytes.accepts, refused,
      Bool.false_eq_true, IsTextValue, false_and, or_false, reduceCtorEq]

theorem deep_iff (documented : Documented pg) {ty : PgType} (deep : maxDomainDepth < depth ty)
    {v : Value} (some_ : v ≠ .null) :
    checkParam pg v ty = .ok () ↔
      IsTextValue v ∧ nameKeyed.contains (resolveDomain ty).name = true := by
  have domain := resolveLoop_deep deep
  have refused (types : List Builtin) : (resolveDomain ty).isOneOf types = false :=
    isOneOf_domain domain
  rw [checkParam_iff, accepted_deep documented domain]
  constructor
  · exact fun both => both.1.resolve_left some_
  · intro named
    refine ⟨.inr named, ?_⟩
    cases v with
    | text s =>
      refine ⟨?_, rfl⟩
      rw [checkSpecial, isSpecialFor, refused, refused]
      rfl
    | _ => cases named.1

/-! ## Lockstep -/

/-- The pre-flight against the encoders. -/
structure Lockstep (pg : PostgresTypes) : Prop where
  encodes : ∀ v ty, ValidInt v → checkParam pg v ty = .ok () →
    (valueToBoxed pg v).accepts ty = true ∧ ∃ out, (valueToBoxed pg v).toSqlChecked ty = .ok out
  asBase : ∀ v ty, depth ty ≤ maxDomainDepth →
    (checkParam pg v ty = .ok () ↔ checkParam pg v (baseType ty) = .ok ()) ∧
      ToSql.written (valueToBoxed pg v) ty = ToSql.written (valueToBoxed pg v) (baseType ty) ∧
      (valueToBoxed pg v).encodeFormat ty = (valueToBoxed pg v).encodeFormat (baseType ty)
  null : ∀ ty, checkParam pg .null ty = .ok ()
  deeper : ∀ v ty, maxDomainDepth < depth ty → v ≠ .null →
    (checkParam pg v ty ≠ .ok () ↔
      ¬(IsTextValue v ∧ nameKeyed.contains (resolveDomain ty).name = true))
  integers : ∀ n ty, IntFits 8 n → checkParam pg (.i64 n) ty = .ok () →
    ∃ payload, (valueToBoxed pg (.i64 n)).toSqlChecked ty = .ok (some payload) ∧
      Carries n payload (resolveDomain ty) ((valueToBoxed pg (.i64 n)).encodeFormat ty)
  unsigned : ∀ n ty, checkParam pg (.u64 n) ty ≠ .ok ()

theorem bind_lockstep (documented : Documented pg) : Lockstep pg where
  encodes := by
    intro v ty valid passed
    refine ⟨?_, accepted_written documented valid passed⟩
    rw [accepts_boxed]
    exact ((checkParam_iff v ty).mp passed).1
  asBase := by
    intro v ty shallow
    have same := resolveDomain_base shallow
    refine ⟨?_, written_resolved same v, encodeFormat_resolved same v⟩
    rw [checkParam_iff, checkParam_iff, accepted_resolved same, same]
  null := fun ty => (checkParam_iff .null ty).mpr ⟨rfl, rfl, rfl⟩
  deeper := fun v ty deep some_ => not_congr (deep_iff documented deep some_)
  integers := by
    intro n ty range passed
    obtain ⟨taken, _, inside⟩ := (checkParam_iff _ ty).mp passed
    obtain ⟨payload, done, carries⟩ := int_written documented range taken inside
    refine ⟨payload, ?_, carries⟩
    rw [ToSql.toSqlChecked, accepts_boxed, if_pos taken]
    exact done
  unsigned := fun n ty passed => nomatch ((checkParam_iff _ ty).mp passed).1

/-- An encoder as it is documented. -/
def documentedEncoder {α : Type} (types : PgType → Bool) (out : PgType → α → PgBind.Bytes) :
    Encoder α where
  accepts := types
  toSql := fun v ty => .ok (out ty v)
  encodeFormat := fun _ => .binary

def reference : PostgresTypes where
  bool := documentedEncoder (·.isOneOf [.bool]) fun _ b => [if b then 1 else 0]
  i16 := documentedEncoder (·.isOneOf [.int2]) fun _ => intPayload 2
  i32 := documentedEncoder (·.isOneOf [.int4]) fun _ => intPayload 4
  i64 := documentedEncoder (·.isOneOf [.int8]) fun _ => intPayload 8
  u32 := documentedEncoder (·.isOneOf [.oid]) fun _ n => bigEndian 4 n.toNat
  f32 := documentedEncoder (·.isOneOf [.float4]) fun _ => bigEndian 4
  f64 := documentedEncoder (·.isOneOf [.float8]) fun _ => bigEndian 8
  string := documentedEncoder stringTypes stringPayload
  bytes := documentedEncoder (·.isOneOf [.bytea]) fun _ b => b
  display := fun _ => [48]

theorem documentedEncoder_documents {α : Type} (types : PgType → Bool) (fits : α → Prop)
    (out : PgType → α → PgBind.Bytes) : Documents (documentedEncoder types out) types fits out :=
  ⟨fun _ => rfl, fun _ _ _ _ => rfl, fun _ => rfl⟩

theorem reference_documented : Documented reference where
  bool := documentedEncoder_documents _ _ _
  i16 := documentedEncoder_documents _ _ _
  i32 := documentedEncoder_documents _ _ _
  i64 := documentedEncoder_documents _ _ _
  u32 := documentedEncoder_documents _ _ _
  f32 := documentedEncoder_documents _ _ _
  f64 := documentedEncoder_documents _ _ _
  string := documentedEncoder_documents _ _ _
  bytes := documentedEncoder_documents _ _ _

theorem bind_lockstep_reference : Lockstep reference :=
  bind_lockstep reference_documented

/-- A type under a number of domains. -/
def nest : Nat → PgType → PgType
  | 0, ty => ty
  | n + 1, ty => .domain "layer" (nest n ty)

/-- Eight domains over a ninth of the name `ltree`, over `text`. -/
def deepLtree : PgType :=
  nest 8 (.domain "ltree" (.builtin .text))

/-- The ninth domain is bound by its name. -/
theorem deepLtree_accepted :
    Documented reference ∧ maxDomainDepth < depth deepLtree ∧
      checkParam reference (.text "x") deepLtree = .ok () ∧
      (valueToBoxed reference (.text "x")).toSqlChecked deepLtree = .ok (some (1 :: asBytes "x")) :=
  ⟨reference_documented, by decide, rfl, rfl⟩

end FerroEngine.PgBindLockstep
