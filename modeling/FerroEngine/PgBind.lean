import FerroEngine.BinaryFloat
import FerroEngine.DecimalText
import FerroEngine.PinClassifier
import FerroEngine.SqlMessages

set_option autoImplicit false

/-! # Binding PostgreSQL parameters

`ferro-backend-pg/src/bind.rs`. The encoders of `postgres-types` are parameters, and so is the text
that Rust displays for a double.
-/

namespace FerroEngine.PgBind

open BinaryFloat SqlMessages PinClassifier

abbrev Bytes := List UInt8

/-! ## Types -/

/-- The built-in types that the binds name. -/
inductive Builtin where
  | bool
  | bytea
  | name
  | int8
  | int2
  | int4
  | text
  | oid
  | json
  | float4
  | float8
  | unknown
  | bpchar
  | varchar
  | date
  | time
  | timestamp
  | timestamptz
  | numeric
  | uuid
  | jsonb
  deriving DecidableEq, Repr

/-- `Type`. The `other` types are neither named by the binds nor domains. -/
inductive PgType where
  | builtin (b : Builtin)
  | other (name : String)
  | domain (name : String) (inner : PgType)
  deriving DecidableEq, Repr

def Builtin.typeName : Builtin → String
  | .bool => "bool"
  | .bytea => "bytea"
  | .name => "name"
  | .int8 => "int8"
  | .int2 => "int2"
  | .int4 => "int4"
  | .text => "text"
  | .oid => "oid"
  | .json => "json"
  | .float4 => "float4"
  | .float8 => "float8"
  | .unknown => "unknown"
  | .bpchar => "bpchar"
  | .varchar => "varchar"
  | .date => "date"
  | .time => "time"
  | .timestamp => "timestamp"
  | .timestamptz => "timestamptz"
  | .numeric => "numeric"
  | .uuid => "uuid"
  | .jsonb => "jsonb"

def PgType.name : PgType → String
  | .builtin b => b.typeName
  | .other name => name
  | .domain name _ => name

def PgType.isDomain : PgType → Bool
  | .domain _ _ => true
  | _ => false

def maxDomainDepth : Nat := 8

/-- The loop of `resolve_domain`. -/
def resolveLoop : Nat → PgType → PgType
  | n + 1, .domain _ inner => resolveLoop n inner
  | _, ty => ty

def resolveDomain (ty : PgType) : PgType :=
  resolveLoop maxDomainDepth ty

/-! ## Encoders -/

inductive Format where
  | text
  | binary
  deriving DecidableEq, Repr

/-- An implementation of `ToSql` in `postgres-types`, for the values of a Rust type. -/
structure Encoder (α : Type) where
  accepts : PgType → Bool
  toSql : α → PgType → Except String Bytes
  encodeFormat : PgType → Format

/-- The implementations that the binds delegate to; a float is its bits. -/
structure PostgresTypes where
  bool : Encoder Bool
  i16 : Encoder Int
  i32 : Encoder Int
  i64 : Encoder Int
  u32 : Encoder Int
  f32 : Encoder Nat
  f64 : Encoder Nat
  string : Encoder String
  bytes : Encoder Bytes
  /-- `Display` of an `f64`. -/
  display : UInt64 → Bytes

inductive EncodeError where
  | inner (message : String)
  /-- `TryFromIntError` -/
  | outOfRange
  /-- `PgInt cannot bind {} to PG type float8 (it is not exactly representable …)` -/
  | rounds (n : Int)
  /-- `PgInt cannot bind {n} to PG type bool (only 0 and 1 have a boolean meaning)` -/
  | notBoolean (n : Int)
  /-- `PgInt cannot bind PG type {}`, `PgFloat cannot bind PG type {}` -/
  | cannotBind (typeName : String)
  /-- `WrongType`, of `to_sql_checked` -/
  | wrongType (ty : PgType)
  deriving DecidableEq

/-- A boxed parameter. The payload of a NULL is none. -/
structure ToSql where
  accepts : PgType → Bool
  toSql : PgType → Except EncodeError (Option Bytes)
  encodeFormat : PgType → Format

/-- `to_sql_checked!()`. -/
def ToSql.toSqlChecked (boxed : ToSql) (ty : PgType) : Except EncodeError (Option Bytes) :=
  if boxed.accepts ty then boxed.toSql ty else .error (.wrongType ty)

def delegated {α : Type} (encoder : Encoder α) (value : α) (base : PgType) :
    Except EncodeError (Option Bytes) :=
  match encoder.toSql value base with
  | .ok out => .ok (some out)
  | .error message => .error (.inner message)

/-- `[$(Type::$ty),+].contains(base)`. -/
def PgType.isOneOf (types : List Builtin) : PgType → Bool
  | .builtin b => types.contains b
  | _ => false

def pgNull : ToSql where
  accepts := fun _ => true
  toSql := fun _ => .ok none
  encodeFormat := fun _ => .binary

/-- `pg_domain_aware_param!`. -/
def domainAwareAccepts {α : Type} (inner : Encoder α) (ty : PgType) : Bool :=
  inner.accepts (resolveDomain ty)

def domainAwareParam {α : Type} (inner : Encoder α) (value : α) : ToSql where
  accepts := domainAwareAccepts inner
  toSql := fun ty => delegated inner value (resolveDomain ty)
  encodeFormat := fun ty => inner.encodeFormat (resolveDomain ty)

def isTextInputTarget (base : PgType) : Bool :=
  base.isOneOf [.numeric, .date, .time, .timestamp, .timestamptz, .uuid, .json, .jsonb, .int2, .int4,
    .int8]

/-- `s.as_bytes()`. -/
def asBytes (s : String) : Bytes :=
  s.toUTF8.toList

/-- `pg_canonical_text_param!`. -/
def canonicalTextAccepts (types : List Builtin) (ty : PgType) : Bool :=
  (resolveDomain ty).isOneOf types

def canonicalTextParam (types : List Builtin) (s : String) : ToSql where
  accepts := canonicalTextAccepts types
  toSql := fun _ => .ok (some (asBytes s))
  encodeFormat := fun _ => .text

def pgDecimalText : List Builtin := [.numeric]

def pgDateText : List Builtin := [.date]

def pgTimeText : List Builtin := [.time]

def pgTimestampText : List Builtin := [.timestamp]

def pgTimestampTzText : List Builtin := [.timestamptz]

def pgUuidText : List Builtin := [.uuid]

def pgJsonText : List Builtin := [.json, .jsonb]

/-- `n.to_string()` of an integer. -/
def intText (n : Int) : Bytes :=
  if n < 0 then 45 :: DecimalText.decimal n.natAbs else DecimalText.decimal n.natAbs

def i64IsExactAsF64 (n : Int) : Bool :=
  decide (toInt binary64 (ofInt binary64 n) = n)

/-- `i16::try_from(n)`, `i32::try_from(n)`. -/
def tryInto (bits : Nat) (n : Int) : Except EncodeError Int :=
  if -2 ^ (bits - 1) ≤ n ∧ n < 2 ^ (bits - 1) then .ok n else .error .outOfRange

/-- `u32::try_from(n)`. -/
def tryIntoU32 (n : Int) : Except EncodeError Int :=
  if 0 ≤ n ∧ n < 2 ^ 32 then .ok n else .error .outOfRange

def pgIntAccepts (ty : PgType) : Bool :=
  (resolveDomain ty).isOneOf [.int2, .int4, .int8, .text, .bool, .numeric, .float8, .varchar, .oid]

def pgFloatAccepts (ty : PgType) : Bool :=
  (resolveDomain ty).isOneOf [.float4, .float8, .numeric]

section Newtypes

variable (pg : PostgresTypes)

def pgTextAccepts (ty : PgType) : Bool :=
  pg.string.accepts (resolveDomain ty) || isTextInputTarget (resolveDomain ty)

def pgText (s : String) : ToSql where
  accepts := pgTextAccepts pg
  toSql := fun ty =>
    if isTextInputTarget (resolveDomain ty) then .ok (some (asBytes s))
    else delegated pg.string s (resolveDomain ty)
  encodeFormat := fun ty =>
    if isTextInputTarget (resolveDomain ty) then .text
    else pg.string.encodeFormat (resolveDomain ty)

def pgInt (n : Int) : ToSql where
  accepts := pgIntAccepts
  toSql := fun ty =>
    let base := resolveDomain ty
    match base with
    | .builtin .int2 => (tryInto 16 n).bind fun n => delegated pg.i16 n base
    | .builtin .int4 => (tryInto 32 n).bind fun n => delegated pg.i32 n base
    | .builtin .int8 => delegated pg.i64 n base
    | .builtin .oid => (tryIntoU32 n).bind fun n => delegated pg.u32 n base
    | .builtin .text | .builtin .varchar => .ok (some (intText n))
    | .builtin .numeric => .ok (some (intText n))
    | .builtin .float8 =>
      if i64IsExactAsF64 n then delegated pg.f64 (ofInt binary64 n) base else .error (.rounds n)
    | .builtin .bool =>
      if n = 0 then delegated pg.bool false base
      else if n = 1 then delegated pg.bool true base
      else .error (.notBoolean n)
    | _ => .error (.cannotBind ty.name)
  encodeFormat := fun ty =>
    if (resolveDomain ty).isOneOf [.text, .varchar, .numeric] then .text else .binary

/-- `NaN`. -/
def nanText : Bytes := [78, 97, 78]

/-- `Infinity`. -/
def infinityText : Bytes := [73, 110, 102, 105, 110, 105, 116, 121]

def f64NumericText (f : UInt64) : Bytes :=
  if binary64.isNan f.toNat then nanText
  else if f.toNat = binary64.infinity then infinityText
  else if f.toNat = binary64.signBit + binary64.infinity then 45 :: infinityText
  else pg.display f

def pgFloat (f : UInt64) : ToSql where
  accepts := pgFloatAccepts
  toSql := fun ty =>
    let base := resolveDomain ty
    match base with
    | .builtin .float4 => delegated pg.f32 (convert binary64 binary32 f.toNat) base
    | .builtin .float8 => delegated pg.f64 f.toNat base
    | .builtin .numeric => .ok (some (f64NumericText pg f))
    | _ => .error (.cannotBind ty.name)
  encodeFormat := fun ty => if (resolveDomain ty).isOneOf [.numeric] then .text else .binary

def pgU64TextAccepts (_ : PgType) : Bool :=
  false

def pgU64Text (n : Nat) : ToSql where
  accepts := pgU64TextAccepts
  toSql := fun _ => .ok (some (intText n))
  encodeFormat := fun _ => .text

def valueToBoxed : Value → ToSql
  | .null => pgNull
  | .bool b => domainAwareParam pg.bool b
  | .i64 n => pgInt pg n
  | .f64 f => pgFloat pg f
  | .text s => pgText pg s
  | .bytes b => domainAwareParam pg.bytes b
  | .u64 n => pgU64Text n
  | .decimal s => canonicalTextParam pgDecimalText s
  | .date s => canonicalTextParam pgDateText s
  | .time s => canonicalTextParam pgTimeText s
  | .timestamp s => canonicalTextParam pgTimestampText s
  | .timestampTz s => canonicalTextParam pgTimestampTzText s
  | .uuid s => canonicalTextParam pgUuidText s
  | .json s => canonicalTextParam pgJsonText s

end Newtypes

/-! ## The pre-flight -/

/-- How a message names the type of a slot. -/
inductive NamedType where
  | plain (name : String)
  /-- `{} (domain nesting exceeds the {MAX_DOMAIN_DEPTH}-level resolver bound; resolution stopped at
  {}, which is itself a domain)` -/
  | tooDeep (name stop : String)
  /-- `{} (domain over {})` -/
  | domain (name base : String)
  deriving DecidableEq, Repr

/-- The reason of a refusal. -/
inductive Refusal where
  /-- `canonical {} cannot bind to PG type {named}` -/
  | cannotBind (kind : String) (named : NamedType)
  /-- `canonical Text {s:?} is one of PostgreSQL's SPECIAL input literals for {}, so …` -/
  | special (s : String) (base : String)
  /-- `canonical I64 value {n} is out of range for PG type {}` -/
  | outOfRange (n : Int) (base : String)
  /-- `canonical I64 value {n} cannot bind to PG type float8: it is not exactly representable as an
  f64` -/
  | notExact (n : Int)
  /-- `canonical I64 value {n} cannot bind to PG type bool: only 0 and 1 have a boolean meaning` -/
  | notBoolean (n : Int)
  /-- `canonical F64 value {f} is out of range for PG type float4 (it would silently become
  infinity…)` -/
  | overflow (f : UInt64)
  /-- `canonical F64 value {f:e} is out of range for PG type float4 (it would silently become
  zero…)` -/
  | underflow (f : UInt64)
  deriving DecidableEq

def valueKind : Value → String
  | .null => "NULL"
  | .bool _ => "BOOL"
  | .i64 _ => "I64"
  | .f64 _ => "F64"
  | .text _ => "TEXT"
  | .bytes _ => "BYTES"
  | .u64 _ => "U64"
  | .decimal _ => "DECIMAL"
  | .date _ => "DATE"
  | .time _ => "TIME"
  | .timestamp _ => "TIMESTAMP"
  | .timestampTz _ => "TIMESTAMPTZ"
  | .uuid _ => "UUID"
  | .json _ => "JSON"

/-- The name in a message; only a domain is resolved to another type. -/
def namedType (ty : PgType) : NamedType :=
  let base := resolveDomain ty
  if !ty.isDomain then .plain ty.name
  else if base.isDomain then .tooDeep ty.name base.name
  else .domain ty.name base.name

/-- `t.eq_ignore_ascii_case(k)`. -/
def eqIgnoreAsciiCase (t k : List Char) : Bool :=
  t.map Char.toLower == k.map Char.toLower

def datetimeSpecials : List String :=
  ["infinity", "-infinity", "+infinity", "now", "today", "tomorrow", "yesterday", "epoch"]

def isPgSpecialDatetimeLiteral (s : String) : Bool :=
  let t := trim s.toList
  datetimeSpecials.any (fun k => eqIgnoreAsciiCase t k.toList) ||
    eqIgnoreAsciiCase t "allballs".toList

def numericSpecials : List String :=
  ["nan", "infinity", "-infinity", "+infinity", "inf"]

def isPgSpecialNumericLiteral (s : String) : Bool :=
  let t := trim s.toList
  numericSpecials.any (fun k => eqIgnoreAsciiCase t k.toList) ||
    eqIgnoreAsciiCase t "-inf".toList || eqIgnoreAsciiCase t "+inf".toList

/-- The special literals for a slot of this type. -/
def isSpecialFor (base : PgType) (s : String) : Bool :=
  if base.isOneOf [.date, .time, .timestamp, .timestamptz] then isPgSpecialDatetimeLiteral s
  else if base.isOneOf [.numeric] then isPgSpecialNumericLiteral s
  else false

def checkRange (v : Value) (ty : PgType) : Except Refusal Unit :=
  match v with
  | .i64 n =>
    match ty with
    | .builtin .int4 =>
      match tryInto 32 n with
      | .error _ => .error (.outOfRange n "int4")
      | .ok _ => .ok ()
    | .builtin .int2 =>
      match tryInto 16 n with
      | .error _ => .error (.outOfRange n "int2")
      | .ok _ => .ok ()
    | .builtin .float8 => if i64IsExactAsF64 n then .ok () else .error (.notExact n)
    | .builtin .oid =>
      match tryIntoU32 n with
      | .error _ => .error (.outOfRange n "oid")
      | .ok _ => .ok ()
    | .builtin .bool => if n ≠ 0 ∧ n ≠ 1 then .error (.notBoolean n) else .ok ()
    | _ => .ok ()
  | .f64 f =>
    let narrow := convert binary64 binary32 f.toNat
    if ty = .builtin .float4 ∧ binary64.isFinite f.toNat ∧ !binary32.isFinite narrow then
      .error (.overflow f)
    else if ty = .builtin .float4 ∧ !binary64.isZero f.toNat ∧ binary32.isZero narrow then
      .error (.underflow f)
    else .ok ()
  | _ => .ok ()

section Preflight

variable (pg : PostgresTypes)

/-- The predicate of the newtype that the value is boxed as. -/
def accepted (ty : PgType) : Value → Bool
  | .null => true
  | .bool _ => domainAwareAccepts pg.bool ty
  | .i64 _ => pgIntAccepts ty
  | .f64 _ => pgFloatAccepts ty
  | .text _ => pgTextAccepts pg ty
  | .bytes _ => domainAwareAccepts pg.bytes ty
  | .u64 _ => pgU64TextAccepts ty
  | .decimal _ => canonicalTextAccepts pgDecimalText ty
  | .date _ => canonicalTextAccepts pgDateText ty
  | .time _ => canonicalTextAccepts pgTimeText ty
  | .timestamp _ => canonicalTextAccepts pgTimestampText ty
  | .timestampTz _ => canonicalTextAccepts pgTimestampTzText ty
  | .uuid _ => canonicalTextAccepts pgUuidText ty
  | .json _ => canonicalTextAccepts pgJsonText ty

/-- The refusal of a text that a slot would give a meaning of its own. -/
def checkSpecial (v : Value) (base : PgType) : Except Refusal Unit :=
  match v with
  | .text s => if isSpecialFor base s then .error (.special s base.name) else .ok ()
  | _ => .ok ()

def checkParam (v : Value) (ty : PgType) : Except Refusal Unit :=
  if !accepted pg ty v then .error (.cannotBind (valueKind v) (namedType ty))
  else
    (checkSpecial v (resolveDomain ty)).bind fun _ => checkRange v (resolveDomain ty)

end Preflight

end FerroEngine.PgBind
