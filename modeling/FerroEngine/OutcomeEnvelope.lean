import FerroEngine.CodecLaws
import FerroEngine.PurePackerLaws

set_option autoImplicit false

/-! # The outcome envelope in both languages

`Outcome` and `ErrorPayload` of `messages.rs` and of `php/client/src/Protocol`. rmp-serde's
deserializer and PHP's casts between scalars are parameters.
-/

namespace FerroEngine.OutcomeEnvelope

open MessagePack
open MessagePackReader (Bytes readArrayLen readPfix readMarker marker readArrayLen_writeArrayLen
  readPfix_writePfix)
open CodecReaders (ofOption readOption expectArity)
open PurePacker (PhpValue packStr packInt packUintInt packArrayLen unpack)
open PurePackerReading PurePackerLaws

/-- A text that one MessagePack string holds. -/
abbrev Text := { s : String // s.utf8ByteSize < 2 ^ 32 }

inductive Outcome (ε : Type) where
  | ok (body : Bytes)
  | error (payload : ε)
  | cancelled
  deriving DecidableEq

def Outcome.map {ε φ : Type} (f : ε → φ) : Outcome ε → Outcome φ
  | .ok body => .ok body
  | .error payload => .error (f payload)
  | .cancelled => .cancelled

def outcomeOk : Nat := 0

def outcomeError : Nat := 1

def outcomeCancelled : Nat := 2

/-! ## The engine -/

structure ErrorPayload where
  code : UInt16
  branch : UInt8
  sqlstate : Option Text
  errno : Option Int32
  message : Text
  detail : Option Text
  retryAfterMs : Option UInt32
  deriving DecidableEq

def writeText (s : Text) : Bytes :=
  writeStr s.val

/-- `to_vec`: an array of the fields in declaration order. -/
def ErrorPayload.encode (p : ErrorPayload) : Bytes :=
  writeArrayLen 7 ++ (writeUint p.code.toNat ++ (writeUint p.branch.toNat ++
    (writeOption writeText p.sqlstate ++ (writeOption (fun n => writeSint n.toInt) p.errno ++
      (writeText p.message ++ (writeOption writeText p.detail ++
        writeOption (fun n => writeUint n.toNat) p.retryAfterMs))))))

/-- `T::deserialize`: the value and the bytes behind it. -/
abbrev Deserialize := Bytes → Option (ErrorPayload × Bytes)

/-- `from_slice`. -/
def ErrorPayload.decode (deserialize : Deserialize) (b : Bytes) :
    Except CodecReaders.CodecError ErrorPayload := do
  let (v, rest) ← ofOption (deserialize b)
  if rest ≠ [] then .error (.trailingBytes rest.length) else .ok v

def Outcome.encode : Outcome ErrorPayload → Bytes
  | .ok body => writeArrayLen 2 ++ (writePfix outcomeOk ++ body)
  | .error ep => writeArrayLen 2 ++ (writePfix outcomeError ++ ep.encode)
  | .cancelled => writeArrayLen 2 ++ (writePfix outcomeCancelled ++ writeNil)

/-- The body behind the status. -/
def decodeBody (deserialize : Deserialize) (status : Nat) (rd : Bytes) :
    Except CodecReaders.CodecError (Outcome ErrorPayload) :=
  if status = outcomeOk then .ok (.ok rd)
  else if status = outcomeError then (ErrorPayload.decode deserialize rd).map .error
  else if status = outcomeCancelled then
    -- Only the first byte of the body is looked at.
    match readMarker rd with
    | some (.nil, _) => .ok .cancelled
    | _ => .error .malformed
  else .error .malformed

def Outcome.decode (deserialize : Deserialize) (b : Bytes) :
    Except CodecReaders.CodecError (Outcome ErrorPayload) := do
  let (len, rd) ← ofOption (readArrayLen b)
  if len ≠ 2 then .error .malformed
  else
    let (status, rd) ← ofOption (readPfix rd)
    decodeBody deserialize status rd

/-! ## The client -/

structure PhpErrorPayload where
  code : Int
  branch : Int
  sqlstate : Option Bytes
  errno : Option Int
  message : Bytes
  detail : Option Bytes
  retryAfterMs : Option Int
  deriving DecidableEq

inductive CodecException where
  | packer (e : PurePacker.CodecError)
  /-- `Outcome: empty payload` -/
  | emptyPayload
  /-- `Outcome: expected fixarray(2), got marker 0x%02x` -/
  | expectedFixarray (found : UInt8)
  /-- `Outcome: status is not an int` -/
  | statusNotInt
  /-- `Outcome: unknown status` -/
  | unknownStatus (status : Int)
  /-- `Outcome::Cancelled body expected exactly nil` -/
  | expectedNil
  /-- `ErrorPayload: trailing bytes` -/
  | trailingBytes
  /-- `ErrorPayload: body is not an array` -/
  | notArray
  /-- `ErrorPayload arity != 7` -/
  | arity
  deriving DecidableEq

def packNil : Bytes := [0xc0]

def packNullable {α : Type} (pack : α → Except PurePacker.CodecError Bytes) :
    Option α → Except PurePacker.CodecError Bytes
  | none => .ok packNil
  | some a => pack a

/-- `packUint` is given ints only. -/
def PhpErrorPayload.encode (p : PhpErrorPayload) : Except PurePacker.CodecError Bytes := do
  let code ← packUintInt p.code
  let branch ← packUintInt p.branch
  let sqlstate ← packNullable (fun s => .ok (packStr s)) p.sqlstate
  let errno ← packNullable (fun n => .ok (packInt n)) p.errno
  let detail ← packNullable (fun s => .ok (packStr s)) p.detail
  let retryAfterMs ← packNullable packUintInt p.retryAfterMs
  .ok (packArrayLen 7 ++ (code ++ (branch ++ (sqlstate ++ (errno ++
    (packStr p.message ++ (detail ++ retryAfterMs)))))))

/-- PHP's casts of a float, and of a string to an int. -/
structure Casts where
  intOfFloat32 : Nat → Int
  intOfFloat64 : Nat → Int
  intOfString : Bytes → Int
  stringOfFloat32 : Nat → Bytes
  stringOfFloat64 : Nat → Bytes

/-- `(string)` of an int. -/
def stringOfInt (n : Int) : Bytes :=
  if n < 0 then 45 :: DecimalText.decimal n.natAbs else DecimalText.decimal n.natAbs

def toInt (casts : Casts) : PhpValue → Int
  | .int n => n
  | .float32 bits => casts.intOfFloat32 bits
  | .float64 bits => casts.intOfFloat64 bits
  | .str s => casts.intOfString s
  | .bool b => if b then 1 else 0
  | _ => 0

def toStr (casts : Casts) : PhpValue → Bytes
  | .str s => s
  | .int n => stringOfInt n
  | .float32 bits => casts.stringOfFloat32 bits
  | .float64 bits => casts.stringOfFloat64 bits
  | .bool b => if b then [49] else []
  | _ => []

/-- `nullableInt` and `nullableStr`. -/
def nullable {α : Type} (convert : PhpValue → α) : PhpValue → Option α
  | .null => none
  | v => some (convert v)

def PhpErrorPayload.mapFromWire (casts : Casts) :
    List PhpValue → Except CodecException PhpErrorPayload
  | [w₀, w₁, w₂, w₃, w₄, w₅, w₆] =>
    .ok { code := toInt casts w₀
          branch := toInt casts w₁
          sqlstate := nullable (toStr casts) w₂
          errno := nullable (toInt casts) w₃
          message := toStr casts w₄
          detail := nullable (toStr casts) w₅
          retryAfterMs := nullable (toInt casts) w₆ }
  | _ => .error .arity

def PhpErrorPayload.decode (casts : Casts) (b : Bytes) :
    Except CodecException PhpErrorPayload := do
  let (w, off) ← (unpack b 0).mapError .packer
  if off ≠ b.length then .error .trailingBytes
  else
    match w with
    | .array w => mapFromWire casts w
    | _ => .error .notArray

def phpEncode : Outcome PhpErrorPayload → Except PurePacker.CodecError Bytes
  | .ok body => do
    let status ← packUintInt outcomeOk
    .ok (packArrayLen 2 ++ (status ++ body))
  | .error e => do
    let status ← packUintInt outcomeError
    let body ← e.encode
    .ok (packArrayLen 2 ++ (status ++ body))
  | .cancelled => do
    let status ← packUintInt outcomeCancelled
    .ok (packArrayLen 2 ++ (status ++ packNil))

def decodeCancelled (body : Bytes) : Except CodecException (Outcome PhpErrorPayload) := do
  let (v, off) ← (unpack body 0).mapError .packer
  match v with
  | .null => if off ≠ body.length then .error .expectedNil else .ok .cancelled
  | _ => .error .expectedNil

/-- The body behind the status. -/
def phpDecodeBody (casts : Casts) (status : Int) (body : Bytes) :
    Except CodecException (Outcome PhpErrorPayload) :=
  if status = outcomeOk then .ok (.ok body)
  else if status = outcomeError then (PhpErrorPayload.decode casts body).map .error
  else if status = outcomeCancelled then decodeCancelled body
  else .error (.unknownStatus status)

def phpDecode (casts : Casts) : Bytes → Except CodecException (Outcome PhpErrorPayload)
  | [] => .error .emptyPayload
  | head :: rest =>
    if head ≠ 0x92 then .error (.expectedFixarray head)
    else do
      let (status, off) ← (unpack (head :: rest) 1).mapError .packer
      match status with
      | .int status => phpDecodeBody casts status ((head :: rest).drop off)
      | _ => .error .statusNotInt

end FerroEngine.OutcomeEnvelope
