import FerroEngine.DecimalText
import FerroEngine.MessagePackReader

set_option autoImplicit false

/-! # PostgreSQL vectors

`vector_to_text` of `ferro-backend-pg/src/pgtext.rs`: the payloads that it takes are the encodings
of vectors, and their texts tell the vectors apart.
-/

namespace FerroEngine.PgVector

open DecimalText MessagePack
open MessagePackReader (bigEndianValue bigEndianValue_lt bigEndianValue_bigEndian signed)

inductive VectorElem where
  | int2
  | oid
  deriving DecidableEq, Repr

def VectorElem.elemOid : VectorElem → Nat
  | .int2 => 21
  | .oid => 26

def VectorElem.elemLen : VectorElem → Nat
  | .int2 => 2
  | .oid => 4

inductive Field where
  | ndim
  | flags
  | elementOid
  | dimensionLength
  | lowerBound
  | elementLength
  deriving DecidableEq, Repr

/-- `PoolError::Backend`; every text starts with the element's label. -/
inductive VectorError where
  /-- `{what}: payload truncated at {field} (offset {cur}, len {})` -/
  | truncated (field : Field) (cur len : Nat)
  /-- `{what}: unexpected array flags {flags:#x} (a vector never holds NULLs)` -/
  | flags (flags : Int)
  /-- `{what}: payload carries element type OID {elem_oid}, expected {}` -/
  | elementOid (elemOid want : Nat)
  /-- `{what}: negative dimension length {nitems}` -/
  | negativeLength (nitems : Int)
  /-- `{what}: lower bound {lbound} (a vector is 0-based; recv refuses anything else)` -/
  | lowerBound (lbound : Int)
  /-- `{what}: element {i} has length {len}, expected {}` -/
  | elementLength (i : Nat) (len : Int) (want : Nat)
  /-- `{what}: payload truncated inside element {i} (len {})` -/
  | truncatedElement (i len : Nat)
  /-- `{what}: {} trailing bytes after the last element` -/
  | trailing (bytes : Nat)
  /-- `{what}: {n} dimensions (a vector is exactly 1-D, the empty vector included …)` -/
  | dimensions (n : Int)
  deriving DecidableEq, Repr

/-! ## The walker -/

/-- `raw.get(cur..cur + width)`. -/
def slice (raw : Text) (cur width : Nat) : Option Text :=
  if cur + width ≤ raw.length then some ((raw.drop cur).take width) else none

def takeI32 (raw : Text) (cur : Nat) (field : Field) : Except VectorError (Int × Nat) :=
  match slice raw cur 4 with
  | some b => .ok (signed 4 (bigEndianValue b), cur + 4)
  | none => .error (.truncated field cur raw.length)

/-- `len as usize`. -/
def asUsize (len : Int) : Nat :=
  (len % 2 ^ 64).toNat

/-- `elem_oid as u32`. -/
def asU32 (n : Int) : Nat :=
  (n % 2 ^ 32).toNat

def readElem : VectorElem → Text → Int
  | .int2, body => signed 2 (bigEndianValue body)
  | .oid, body => bigEndianValue body

/-- `v.to_string()`. -/
def showInt (v : Int) : Text :=
  if v < 0 then 45 :: decimal v.natAbs else decimal v.natAbs

/-- The loop over the elements from the `i`-th on, with what it wrote and where it stopped. -/
def elements (raw : Text) (elem : VectorElem) :
    Nat → Nat → Nat → Text → Except VectorError (Text × Nat)
  | 0, _, cur, out => .ok (out, cur)
  | left + 1, i, cur, out => do
    let (len, cur) ← takeI32 raw cur .elementLength
    if asUsize len ≠ elem.elemLen then .error (.elementLength i len elem.elemLen)
    else
      match slice raw cur elem.elemLen with
      | none => .error (.truncatedElement i raw.length)
      | some body =>
        elements raw elem left (i + 1) (cur + elem.elemLen)
          (out ++ ((if 0 < i then [32] else []) ++ showInt (readElem elem body)))

def vectorToText (raw : Text) (elem : VectorElem) : Except VectorError Text := do
  let (ndim, cur) ← takeI32 raw 0 .ndim
  let (flags, cur) ← takeI32 raw cur .flags
  let (elemOid, cur) ← takeI32 raw cur .elementOid
  if flags ≠ 0 then .error (.flags flags)
  else if asU32 elemOid ≠ elem.elemOid then .error (.elementOid (asU32 elemOid) elem.elemOid)
  else if ndim = 1 then do
    let (nitems, cur) ← takeI32 raw cur .dimensionLength
    let (lbound, cur) ← takeI32 raw cur .lowerBound
    if nitems < 0 then .error (.negativeLength nitems)
    else if lbound ≠ 0 then .error (.lowerBound lbound)
    else do
      let (out, cur) ← elements raw elem nitems.toNat 0 cur []
      if cur ≠ raw.length then .error (.trailing (raw.length - cur)) else .ok out
  else .error (.dimensions ndim)

/-! ## The encoding -/

def encodeI32 (n : Int) : Text :=
  bigEndian 4 (n % 2 ^ 32).toNat

/-- The values of an element's type. -/
def Fits : VectorElem → Int → Prop
  | .int2, v => -2 ^ 15 ≤ v ∧ v < 2 ^ 15
  | .oid, v => 0 ≤ v ∧ v < 2 ^ 32

def encodeBody (elem : VectorElem) (v : Int) : Text :=
  bigEndian elem.elemLen (v % 2 ^ (8 * elem.elemLen)).toNat

/-- An element with its length in front. -/
def encodeElem (elem : VectorElem) (v : Int) : Text :=
  encodeI32 elem.elemLen ++ encodeBody elem v

/-- One dimension, no flags, the element's type, the length and the lower bound. -/
def encodeHeader (elem : VectorElem) (items : Nat) : Text :=
  encodeI32 1 ++ (encodeI32 0 ++ (encodeI32 elem.elemOid ++ (encodeI32 items ++ encodeI32 0)))

def encode (elem : VectorElem) (items : List Int) : Text :=
  encodeHeader elem items.length ++ items.flatMap (encodeElem elem)

/-- A vector's length is an `i32`, and its elements are of their type. -/
structure Vector (elem : VectorElem) (items : List Int) : Prop where
  length : items.length < 2 ^ 31
  fits : ∀ v ∈ items, Fits elem v

/-- The numbers in decimal with single spaces between them. -/
def joined (items : List Int) : Text :=
  List.intercalate [32] (items.map showInt)

/-! ## Bytes and numbers -/

/-- Two's complement and back, at a width of bytes. -/
theorem signed_bytes {width : Nat} (positive : 0 < width) {n : Nat} (small : n < 256 ^ width) :
    ((signed width n % 2 ^ (8 * width)).toNat = n) ∧
      -2 ^ (8 * width - 1) ≤ signed width n ∧ signed width n < 2 ^ (8 * width - 1) := by
  have double := MessagePackReader.two_pow_width positive
  have base : (256 : Nat) ^ width = 2 ^ (8 * width) := by rw [Nat.pow_mul]
  have cast : ((2 ^ (8 * width) : Nat) : Int) = 2 ^ (8 * width) := by norm_cast
  have half : ((2 ^ (8 * width - 1) : Nat) : Int) = 2 ^ (8 * width - 1) := by norm_cast
  have below : (n : Int) < 2 ^ (8 * width) := by omega
  unfold signed
  generalize (2 : Int) ^ (8 * width) = whole at *
  generalize (2 : Int) ^ (8 * width - 1) = part at *
  split
  · rw [Int.emod_eq_of_lt (by omega) below]
    omega
  · have shift : (n - whole) % whole = n := by
      rw [Int.sub_emod_right, Int.emod_eq_of_lt (by omega) below]
    rw [shift]
    omega

theorem signed_toNat {width : Nat} (positive : 0 < width) {v : Int}
    (low : -2 ^ (8 * width - 1) ≤ v) (high : v < 2 ^ (8 * width - 1)) :
    signed width (v % 2 ^ (8 * width)).toNat = v := by
  have double := MessagePackReader.two_pow_width positive
  have half : ((2 ^ (8 * width - 1) : Nat) : Int) = 2 ^ (8 * width - 1) := by norm_cast
  by_cases negative : v < 0
  · have shift : v % 2 ^ (8 * width) = v + 2 ^ (8 * width) := by
      rw [← Int.add_emod_right, Int.emod_eq_of_lt (by omega) (by omega)]
    rw [shift]
    exact MessagePackReader.signed_toNat positive low negative
  · have same : v % 2 ^ (8 * width) = v := Int.emod_eq_of_lt (by omega) (by omega)
    rw [same, signed, if_pos (by omega)]
    omega

/-! ## The pieces -/

theorem slice_iff {raw body : Text} {cur width : Nat} (positive : 0 < width) :
    slice raw cur width = some body ↔
      body.length = width ∧ raw.drop cur = body ++ raw.drop (cur + width) := by
  unfold slice
  constructor
  · intro found
    split at found
    · cases found
      refine ⟨?_, ?_⟩
      · rw [List.length_take, List.length_drop]
        omega
      · rw [← List.drop_drop, List.take_append_drop]
    · cases found
  · rintro ⟨length, whole⟩
    have total := congrArg List.length whole
    rw [List.length_drop, List.length_append, List.length_drop] at total
    rw [if_pos (by omega), whole, ← length, List.take_left]

theorem encodeI32_length (n : Int) : (encodeI32 n).length = 4 :=
  bigEndian_length 4 _

theorem takeI32_iff {raw : Text} {cur next : Nat} {field : Field} {n : Int} :
    takeI32 raw cur field = .ok (n, next) ↔
      next = cur + 4 ∧ (-2 ^ 31 ≤ n ∧ n < 2 ^ 31) ∧
        raw.drop cur = encodeI32 n ++ raw.drop (cur + 4) := by
  unfold takeI32
  constructor
  · intro taken
    cases found : slice raw cur 4 with
    | none =>
      rw [found] at taken
      cases taken
    | some b =>
      rw [found] at taken
      cases taken
      obtain ⟨length, whole⟩ := (slice_iff (by omega)).mp found
      have small := bigEndianValue_lt b
      rw [length] at small
      obtain ⟨bits, low, high⟩ := signed_bytes (by omega : 0 < 4) small
      have bytes := MessagePackReader.bigEndian_bigEndianValue b
      rw [length] at bytes
      refine ⟨rfl, ⟨low, high⟩, ?_⟩
      rw [encodeI32, bits, bytes]
      exact whole
  · rintro ⟨rfl, ⟨low, high⟩, whole⟩
    have found := (slice_iff (by omega)).mpr ⟨encodeI32_length n, whole⟩
    have small : (n % 2 ^ 32).toNat < 256 ^ 4 := by omega
    rw [found]
    dsimp only
    rw [encodeI32, bigEndianValue_bigEndian, Nat.mod_eq_of_lt small]
    exact congrArg (fun n => Except.ok (n, cur + 4)) (signed_toNat (by omega : 0 < 4) low high)

theorem encodeBody_length (elem : VectorElem) (v : Int) :
    (encodeBody elem v).length = elem.elemLen :=
  bigEndian_length _ _

theorem readElem_fits {elem : VectorElem} {body : Text} (length : body.length = elem.elemLen) :
    Fits elem (readElem elem body) ∧ encodeBody elem (readElem elem body) = body := by
  have small := bigEndianValue_lt body
  have bytes := MessagePackReader.bigEndian_bigEndianValue body
  rw [length] at small bytes
  unfold encodeBody
  cases elem with
  | int2 =>
    obtain ⟨bits, low, high⟩ := signed_bytes (by omega : 0 < 2) small
    refine ⟨⟨low, high⟩, ?_⟩
    exact (congrArg (bigEndian 2) bits).trans bytes
  | oid =>
    have range : 0 ≤ (bigEndianValue body : Int) ∧ (bigEndianValue body : Int) < 2 ^ 32 := by
      change bigEndianValue body < 2 ^ 32 at small
      omega
    refine ⟨range, ?_⟩
    have bits : ((bigEndianValue body : Int) % 2 ^ 32).toNat = bigEndianValue body := by omega
    exact (congrArg (bigEndian 4) bits).trans bytes

theorem readElem_encodeBody {elem : VectorElem} {v : Int} (fits : Fits elem v) :
    readElem elem (encodeBody elem v) = v := by
  unfold encodeBody
  cases elem with
  | int2 =>
    have small : (v % 2 ^ (8 * 2)).toNat < 256 ^ 2 := by omega
    simp only [readElem, VectorElem.elemLen]
    rw [bigEndianValue_bigEndian, Nat.mod_eq_of_lt small]
    exact signed_toNat (by omega : 0 < 2) fits.1 fits.2
  | oid =>
    obtain ⟨low, high⟩ := fits
    have small : (v % 2 ^ (8 * 4)).toNat < 256 ^ 4 := by omega
    simp only [readElem, VectorElem.elemLen]
    rw [bigEndianValue_bigEndian, Nat.mod_eq_of_lt small]
    omega

theorem asUsize_eq {elem : VectorElem} {len : Int} (range : -2 ^ 31 ≤ len ∧ len < 2 ^ 31) :
    asUsize len = elem.elemLen ↔ len = elem.elemLen := by
  unfold asUsize
  have small : elem.elemLen ≤ 4 := by
    cases elem <;> decide
  omega

/-! ## The elements -/

/-- What the loop writes for the elements from the `i`-th on. -/
def tailText : Nat → List Int → Text
  | _, [] => []
  | i, v :: rest => (if 0 < i then [32] else []) ++ (showInt v ++ tailText (i + 1) rest)

theorem bind_ok_iff {α β : Type} {x : Except VectorError α} {f : α → Except VectorError β} {b : β} :
    (x >>= f) = .ok b ↔ ∃ a, x = .ok a ∧ f a = .ok b := by
  cases x with
  | error e => exact ⟨nofun, by rintro ⟨a, same, -⟩; cases same⟩
  | ok a => exact ⟨fun done => ⟨a, rfl, done⟩, by rintro ⟨_, ⟨⟩, done⟩; exact done⟩

theorem encodeElem_length (elem : VectorElem) (v : Int) :
    (encodeElem elem v).length = 4 + elem.elemLen := by
  rw [encodeElem, List.length_append, encodeI32_length, encodeBody_length]

/-- One turn of the loop. -/
theorem element_iff {raw : Text} {elem : VectorElem} {left i cur : Nat} {out : Text}
    {done : Text × Nat} :
    elements raw elem (left + 1) i cur out = .ok done ↔
      ∃ v, Fits elem v ∧
        raw.drop cur = encodeElem elem v ++ raw.drop (cur + (4 + elem.elemLen)) ∧
        elements raw elem left (i + 1) (cur + (4 + elem.elemLen))
          (out ++ ((if 0 < i then [32] else []) ++ showInt v)) = .ok done := by
  have positive : 0 < elem.elemLen := by
    cases elem <;> decide
  rw [elements, bind_ok_iff]
  simp only [Prod.exists, takeI32_iff]
  constructor
  · rintro ⟨len, next, ⟨rfl, range, front⟩, later⟩
    split at later
    · cases later
    · rename_i same
      have length := (asUsize_eq range).mp (not_not.mp same)
      cases found : slice raw (cur + 4) elem.elemLen with
      | none =>
        rw [found] at later
        cases later
      | some body =>
        rw [found] at later
        obtain ⟨bytes, back⟩ := (slice_iff positive).mp found
        obtain ⟨fits, encoded⟩ := readElem_fits bytes
        refine ⟨readElem elem body, fits, ?_, ?_⟩
        · rw [encodeElem, encoded, front, back, length, List.append_assoc, Nat.add_assoc]
        · rw [← Nat.add_assoc]
          exact later
  · rintro ⟨v, fits, front, later⟩
    rw [encodeElem, List.append_assoc] at front
    have after := congrArg (List.drop 4) front
    rw [List.drop_drop, List.drop_left' (encodeI32_length _)] at after
    have small : elem.elemLen ≤ 4 := by
      cases elem <;> decide
    have range : -2 ^ 31 ≤ (elem.elemLen : Int) ∧ (elem.elemLen : Int) < 2 ^ 31 := by omega
    refine ⟨elem.elemLen, cur + 4, ⟨rfl, range, ?_⟩, ?_⟩
    · rw [after]
      exact front
    · have found : slice raw (cur + 4) elem.elemLen = some (encodeBody elem v) := by
        refine (slice_iff positive).mpr ⟨encodeBody_length elem v, ?_⟩
        rw [after, Nat.add_assoc]
      rw [if_neg (not_not.mpr ((asUsize_eq range).mpr rfl)), found]
      dsimp only
      rw [readElem_encodeBody fits, Nat.add_assoc]
      exact later

theorem elements_iff {raw : Text} {elem : VectorElem} {left i cur next : Nat} {out text : Text} :
    elements raw elem left i cur out = .ok (text, next) ↔
      ∃ items : List Int, items.length = left ∧ (∀ v ∈ items, Fits elem v) ∧
        raw.drop cur = items.flatMap (encodeElem elem) ++ raw.drop next ∧
        next = cur + left * (4 + elem.elemLen) ∧ text = out ++ tailText i items := by
  induction left generalizing i cur out with
  | zero =>
    rw [elements, Except.ok.injEq, Prod.mk.injEq]
    constructor
    · rintro ⟨rfl, rfl⟩
      exact ⟨[], rfl, nofun, rfl, by omega, (List.append_nil out).symm⟩
    · rintro ⟨items, none, -, -, last, written⟩
      rw [List.length_eq_zero_iff.mp none] at written
      exact ⟨(written.trans (List.append_nil out)).symm, by omega⟩
  | succ left ih =>
    rw [element_iff]
    constructor
    · rintro ⟨v, fits, front, later⟩
      obtain ⟨items, count, all, rest, last, written⟩ := ih.mp later
      refine ⟨v :: items, by rw [List.length_cons, count], ?_, ?_, ?_, ?_⟩
      · exact List.forall_mem_cons.mpr ⟨fits, all⟩
      · rw [front, rest, List.flatMap_cons, List.append_assoc]
      · rw [last, Nat.succ_mul]
        omega
      · rw [written, tailText]
        simp only [List.append_assoc]
    · rintro ⟨items, count, all, rest, last, written⟩
      cases items with
      | nil => cases count
      | cons v items =>
        obtain ⟨fits, later⟩ := List.forall_mem_cons.mp all
        rw [List.flatMap_cons, List.append_assoc] at rest
        have after := congrArg (List.drop (4 + elem.elemLen)) rest
        rw [List.drop_drop, List.drop_left' (encodeElem_length elem v)] at after
        refine ⟨v, fits, ?_, ih.mpr ⟨items, Nat.succ.inj count, later, after, ?_, ?_⟩⟩
        · rw [after]
          exact rest
        · rw [last, Nat.succ_mul]
          omega
        · rw [written, tailText]
          simp only [List.append_assoc]

/-! ## The header -/

theorem encodeHeader_length (elem : VectorElem) (items : Nat) :
    (encodeHeader elem items).length = 20 := by
  simp only [encodeHeader, List.length_append, encodeI32_length]

theorem asU32_eq {elem : VectorElem} {n : Int} (range : -2 ^ 31 ≤ n ∧ n < 2 ^ 31) :
    asU32 n = elem.elemOid ↔ n = elem.elemOid := by
  unfold asU32
  have small : elem.elemOid ≤ 26 := by
    cases elem <;> decide
  omega

theorem field_front {raw rest : Text} {cur : Nat} {n : Int}
    (whole : raw.drop cur = encodeI32 n ++ rest) :
    raw.drop cur = encodeI32 n ++ raw.drop (cur + 4) ∧ raw.drop (cur + 4) = rest := by
  have after := congrArg (List.drop 4) whole
  rw [List.drop_drop, List.drop_left' (encodeI32_length n)] at after
  rw [after]
  exact ⟨whole, rfl⟩

theorem vectorToText_iff {raw text : Text} {elem : VectorElem} :
    vectorToText raw elem = .ok text ↔
      ∃ n : Nat, n < 2 ^ 31 ∧ raw = encodeHeader elem n ++ raw.drop 20 ∧
        elements raw elem n 0 20 [] = .ok (text, raw.length) := by
  unfold vectorToText
  simp only [bind_ok_iff, Prod.exists, takeI32_iff]
  have oidRange : -2 ^ 31 ≤ (elem.elemOid : Int) ∧ (elem.elemOid : Int) < 2 ^ 31 := by
    cases elem <;> decide
  constructor
  · rintro ⟨ndim, c₁, ⟨rfl, -, dims⟩, flags, c₂, ⟨rfl, -, noFlags⟩, oid, c₃, ⟨rfl, oids, type⟩,
      later⟩
    split_ifs at later with flagged other one
    obtain ⟨⟨nitems, c₄⟩, took, later⟩ := bind_ok_iff.mp later
    obtain ⟨rfl, range, count⟩ := takeI32_iff.mp took
    obtain ⟨⟨lbound, c₅⟩, took, later⟩ := bind_ok_iff.mp later
    obtain ⟨rfl, -, bound⟩ := takeI32_iff.mp took
    dsimp only at later
    split_ifs at later with negative other
    obtain ⟨⟨out, last⟩, walked, later⟩ := bind_ok_iff.mp later
    dsimp only at later
    split_ifs at later with whole
    cases later
    have length : (nitems.toNat : Int) = nitems := by omega
    rw [one] at dims
    rw [not_not.mp flagged] at noFlags
    rw [(asU32_eq oids).mp (not_not.mp ‹_›)] at type
    rw [not_not.mp other] at bound
    refine ⟨nitems.toNat, by omega, ?_, ?_⟩
    · rw [encodeHeader, length]
      simp only [List.append_assoc]
      rw [← bound, ← count, ← type, ← noFlags]
      exact dims
    · rw [← not_not.mp whole]
      exact walked
  · rintro ⟨n, small, header, done⟩
    rw [encodeHeader] at header
    simp only [List.append_assoc] at header
    obtain ⟨dims, t₁⟩ := @field_front raw _ 0 1 header
    obtain ⟨noFlags, t₂⟩ := field_front t₁
    obtain ⟨type, t₃⟩ := field_front t₂
    obtain ⟨count, t₄⟩ := field_front t₃
    obtain ⟨bound, -⟩ := field_front t₄
    refine ⟨1, 4, ⟨rfl, by omega, dims⟩, 0, 8, ⟨rfl, by omega, noFlags⟩, elem.elemOid, 12,
      ⟨rfl, oidRange, type⟩, ?_⟩
    rw [if_neg (not_not.mpr rfl), if_neg (not_not.mpr ((asU32_eq oidRange).mpr rfl)), if_pos rfl]
    refine bind_ok_iff.mpr ⟨(n, 16), takeI32_iff.mpr ⟨rfl, by omega, count⟩, ?_⟩
    refine bind_ok_iff.mpr ⟨(0, 20), takeI32_iff.mpr ⟨rfl, by omega, bound⟩, ?_⟩
    dsimp only
    rw [if_neg (by omega), if_neg (not_not.mpr rfl), Int.toNat_natCast, done]
    exact if_neg (not_not.mpr rfl)

/-! ## The texts -/

theorem showInt_bytes (v : Int) : ∀ b ∈ showInt v, b ≠ 32 := by
  have digits (n : Nat) : ∀ b ∈ decimal n, b ≠ 32 := by
    intro b member same
    have isOne := (digits_decimal n).1 b member
    rw [same] at isOne
    cases isOne
  intro b member
  unfold showInt at member
  split at member
  · obtain rfl | member := List.mem_cons.mp member
    · decide
    · exact digits _ b member
  · exact digits _ b member

theorem showInt_ne_nil (v : Int) : showInt v ≠ [] := by
  unfold showInt
  split
  · exact List.cons_ne_nil _ _
  · exact (digits_decimal v.natAbs).2

theorem decimal_inj {m n : Nat} (same : decimal m = decimal n) : m = n := by
  have values := congrArg value same
  rw [value_decimal, value_decimal] at values
  exact values

theorem decimal_not_minus {n : Nat} {rest : Text} (same : decimal n = 45 :: rest) : False := by
  have isOne := (digits_decimal n).1 45 (by rw [same]; exact List.mem_cons_self)
  cases isOne

theorem showInt_inj {v w : Int} (same : showInt v = showInt w) : v = w := by
  unfold showInt at same
  split_ifs at same with negative negative'
  · have sizes := decimal_inj (List.cons.inj same).2
    omega
  · exact (decimal_not_minus same.symm).elim
  · exact (decimal_not_minus same).elim
  · have sizes := decimal_inj same
    omega

/-- The texts of the elements behind the first, each with its space. -/
def spaced (items : List Int) : Text :=
  items.flatMap fun v => 32 :: showInt v

theorem tailText_later (i : Nat) (items : List Int) : tailText (i + 1) items = spaced items := by
  induction items generalizing i with
  | nil => rfl
  | cons v items ih =>
    rw [tailText, if_pos (by omega), ih]
    rfl

theorem joined_cons (v : Int) (items : List Int) :
    joined (v :: items) = showInt v ++ spaced items := by
  induction items generalizing v with
  | nil => rfl
  | cons w items ih =>
    have next : joined (v :: w :: items) = showInt v ++ ([32] ++ joined (w :: items)) := rfl
    rw [next, ih]
    rfl

theorem tailText_joined (items : List Int) : tailText 0 items = joined items := by
  cases items with
  | nil => rfl
  | cons v items =>
    rw [tailText, if_neg (Nat.lt_irrefl 0), tailText_later, joined_cons]
    rfl

theorem takeWhile_shown (v : Int) (items : List Int) :
    (showInt v ++ spaced items).takeWhile (· != 32) = showInt v := by
  have stop : (spaced items).takeWhile (· != 32) = [] := by
    cases items with
    | nil => rfl
    | cons w items => rfl
  have all : ∀ b ∈ showInt v, (b != 32) = true := by
    intro b member
    exact bne_iff_ne.mpr (showInt_bytes v b member)
  rw [List.takeWhile_append_of_pos all, stop, List.append_nil]

theorem spaced_inj {items items' : List Int} (same : spaced items = spaced items') :
    items = items' := by
  induction items generalizing items' with
  | nil =>
    cases items' with
    | nil => rfl
    | cons w items' => cases same
  | cons v items ih =>
    cases items' with
    | nil => cases same
    | cons w items' =>
      have texts : showInt v ++ spaced items = showInt w ++ spaced items' :=
        (List.cons.inj same).2
      have first := congrArg (List.takeWhile (· != 32)) texts
      rw [takeWhile_shown, takeWhile_shown] at first
      rw [first] at texts
      rw [showInt_inj first, ih (List.append_cancel_left texts)]

theorem joined_inj {items items' : List Int} (same : joined items = joined items') :
    items = items' := by
  cases items with
  | nil =>
    cases items' with
    | nil => rfl
    | cons w items' =>
      rw [joined_cons] at same
      exact (showInt_ne_nil w (List.append_eq_nil_iff.mp same.symm).1).elim
  | cons v items =>
    cases items' with
    | nil =>
      rw [joined_cons] at same
      exact (showInt_ne_nil v (List.append_eq_nil_iff.mp same).1).elim
    | cons w items' =>
      rw [joined_cons, joined_cons] at same
      apply spaced_inj
      exact congrArg (32 :: ·) same

theorem elements_length (elem : VectorElem) (items : List Int) :
    (items.flatMap (encodeElem elem)).length = items.length * (4 + elem.elemLen) := by
  induction items with
  | nil => rw [List.flatMap_nil, List.length_nil, List.length_nil, Nat.zero_mul]
  | cons v items ih =>
    rw [List.flatMap_cons, List.length_append, encodeElem_length, ih, List.length_cons,
      Nat.succ_mul, Nat.add_comm]

/-- A payload is taken when it encodes a vector, whose numbers are then the text. -/
theorem vectorToText_vector (raw text : Text) (elem : VectorElem) :
    vectorToText raw elem = .ok text ↔
      ∃ items, Vector elem items ∧ raw = encode elem items ∧ text = joined items := by
  rw [vectorToText_iff]
  constructor
  · rintro ⟨n, small, header, walked⟩
    obtain ⟨items, count, fits, rest, -, written⟩ := elements_iff.mp walked
    rw [List.drop_length, List.append_nil] at rest
    rw [List.nil_append, tailText_joined] at written
    refine ⟨items, ⟨by omega, fits⟩, ?_, written⟩
    rw [encode, count, ← rest]
    exact header
  · rintro ⟨items, ⟨small, fits⟩, rfl, rfl⟩
    have dropped : (encode elem items).drop 20 = items.flatMap (encodeElem elem) :=
      List.drop_left' (encodeHeader_length elem items.length)
    refine ⟨items.length, small, ?_, ?_⟩
    · rw [dropped]
      rfl
    · refine elements_iff.mpr ⟨items, rfl, fits, ?_, ?_, ?_⟩
      · rw [dropped, List.drop_length, List.append_nil]
      · rw [encode, List.length_append, encodeHeader_length, elements_length]
      · rw [tailText_joined, List.nil_append]

/-- Both vectors: what is taken, what is printed, and that the text tells the numbers. -/
theorem vectorToText_exact (elem : VectorElem) :
    (∀ raw text, vectorToText raw elem = .ok text ↔
        ∃ items, Vector elem items ∧ raw = encode elem items ∧ text = joined items) ∧
      ∀ items items' : List Int, joined items = joined items' → items = items' :=
  ⟨fun raw text => vectorToText_vector raw text elem, fun _ _ => joined_inj⟩

end FerroEngine.PgVector
