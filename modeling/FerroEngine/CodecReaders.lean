import FerroEngine.MessagePackReader

set_option autoImplicit false

/-! # The readers that the messages share

The helpers of `value.rs`, `messages/sql.rs` and `messages/http.rs`. The text of a malformed
field's error is the library's own and is left out.
-/

namespace FerroEngine.CodecReaders

open MessagePack MessagePackReader

inductive CodecError where
  | malformed
  | truncated (need have' : Nat)
  | trailingBytes (extra : Nat)
  deriving DecidableEq, Repr

abbrev Reader := StateT Bytes (Except CodecError)

def ofOption {α : Type} : Option α → Except CodecError α
  | some a => .ok a
  | none => .error .malformed

def boundLen (len remaining : Nat) : Except CodecError Unit :=
  if remaining < len then .error (.truncated len remaining) else .ok ()

def readNil : Reader Unit := fun rd => do
  let (found, rd) ← ofOption (readMarker rd)
  match found with
  | .nil => .ok ((), rd)
  | _ => .error .malformed

def readBool : Reader Bool := fun rd => do
  let (found, rd) ← ofOption (readMarker rd)
  match found with
  | .bool b => .ok (b, rd)
  | _ => .error .malformed

def readRawStr : Reader Bytes := fun rd => do
  let (len, rd) ← ofOption (readStrLen rd)
  boundLen len rd.length
  ofOption (takeBytes len rd)

def readStr : Reader String := fun rd => do
  let (buf, rd) ← readRawStr rd
  let s ← ofOption (String.fromUTF8? buf.toByteArray)
  .ok (s, rd)

/-! `String::from_utf8_lossy` replaces every maximal invalid sequence by one U+FFFD. -/

def replacementChar : Char := '\uFFFD'

def inRange (low high : Nat) (b : UInt8) : Bool :=
  decide (low ≤ b.toNat) && decide (b.toNat ≤ high)

def isContinuation : UInt8 → Bool := inRange 0x80 0xBF

/-- The bits that a byte adds to a scalar. -/
def joinBits (n : Nat) (b : UInt8) : Nat :=
  n * 64 + b.toNat % 64

/-- The second byte that a lead byte of three or four admits. -/
def secondRange (lead : Nat) : UInt8 → Bool :=
  if lead = 0xE0 then inRange 0xA0 0xBF
  else if lead = 0xED then inRange 0x80 0x9F
  else if lead = 0xF0 then inRange 0x90 0xBF
  else if lead = 0xF4 then inRange 0x80 0x8F
  else isContinuation

/-- The character that a lead byte and its tail start with, and how many bytes of the tail it
takes. -/
def lossyChar (lead : UInt8) (tail : Bytes) : Char × Nat :=
  let k := lead.toNat
  if k < 0x80 then (Char.ofNat k, 0)
  else if 0xC2 ≤ k ∧ k ≤ 0xDF then
    match tail with
    | b :: _ =>
      if isContinuation b then (Char.ofNat (joinBits (k % 32) b), 1) else (replacementChar, 0)
    | [] => (replacementChar, 0)
  else if 0xE0 ≤ k ∧ k ≤ 0xEF then
    match tail with
    | b :: rest =>
      if secondRange k b then
        match rest with
        | c :: _ =>
          if isContinuation c then (Char.ofNat (joinBits (joinBits (k % 16) b) c), 2)
          else (replacementChar, 1)
        | [] => (replacementChar, 1)
      else (replacementChar, 0)
    | [] => (replacementChar, 0)
  else if 0xF0 ≤ k ∧ k ≤ 0xF4 then
    match tail with
    | b :: rest =>
      if secondRange k b then
        match rest with
        | c :: rest =>
          if isContinuation c then
            match rest with
            | d :: _ =>
              if isContinuation d then
                (Char.ofNat (joinBits (joinBits (joinBits (k % 8) b) c) d), 3)
              else (replacementChar, 2)
            | [] => (replacementChar, 2)
          else (replacementChar, 1)
        | [] => (replacementChar, 1)
      else (replacementChar, 0)
    | [] => (replacementChar, 0)
  else (replacementChar, 0)

def lossyLoop : Nat → Bytes → List Char
  | _, [] => []
  | skip + 1, _ :: rest => lossyLoop skip rest
  | 0, b :: rest =>
    let step := lossyChar b rest
    step.1 :: lossyLoop step.2 rest

def fromUtf8Lossy (buf : Bytes) : String :=
  match String.fromUTF8? buf.toByteArray with
  | some s => s
  | none => String.ofList (lossyLoop 0 buf)

def readStrLossy : Reader String := fun rd => do
  let (buf, rd) ← readRawStr rd
  .ok (fromUtf8Lossy buf, rd)

def readBin : Reader Bytes := fun rd => do
  let (len, rd) ← ofOption (readBinLen rd)
  boundLen len rd.length
  ofOption (takeBytes len rd)

def readF64Bits : Reader UInt64 := fun rd => do
  let (bits, rd) ← ofOption (readF64 rd)
  .ok (UInt64.ofNat bits, rd)

/-- A tag is a bare positive fixint. -/
def readTag : Reader Nat := fun rd => ofOption (readPfix rd)

/-- `read_int` into a signed type. -/
def readInt (low high : Int) : Reader Int := fun rd => do
  let (n, rd) ← ofOption (readInteger rd)
  if low ≤ n ∧ n < high then .ok (n, rd) else .error .malformed

/-- `read_int` into an unsigned type. -/
def readUnsigned (bound : Nat) : Reader Nat := fun rd => do
  let (n, rd) ← readInt 0 bound rd
  .ok (n.toNat, rd)

/-- An empty cursor is an error, not an absent field. -/
def peekNil (rd : Bytes) : Except CodecError (Bool × Bytes) :=
  match rd with
  | [] => .error (.truncated 1 0)
  | b :: rest => if b = 0xc0 then .ok (true, rest) else .ok (false, rd)

def readOption {α : Type} (read : Reader α) : Reader (Option α) := fun rd => do
  let (absent, rd) ← peekNil rd
  if absent then .ok (none, rd)
  else
    let (a, rd) ← read rd
    .ok (some a, rd)

def expectArity (want : Nat) : Reader Unit := fun rd => do
  let (n, rd) ← ofOption (readArrayLen rd)
  if n ≠ want then .error .malformed else .ok ((), rd)

def expectEnd (rd : Bytes) : Except CodecError Unit :=
  if rd = [] then .ok () else .error (.trailingBytes rd.length)

/-- A decoder of a whole message, which refuses what follows it. -/
def whole {α : Type} (read : Reader α) (b : Bytes) : Except CodecError α := do
  let (a, rd) ← read b
  expectEnd rd
  .ok a

/-- The loop over a counted list. -/
def readMany {α : Type} (read : Reader α) : Nat → Reader (List α)
  | 0, rd => .ok ([], rd)
  | n + 1, rd => do
    let (a, rd) ← read rd
    let (rest, rd) ← readMany read n rd
    .ok (a :: rest, rd)

/-- A list with its length in front, which is checked before anything is allocated. -/
def readArray {α : Type} (read : Reader α) : Reader (List α) := fun rd => do
  let (n, rd) ← ofOption (readArrayLen rd)
  boundLen n rd.length
  readMany read n rd

/-- A value that is checked once it is read. -/
def readChecked {α : Type} (read : Reader α) (ok : α → Bool) : Reader α := fun rd => do
  let (a, rd) ← read rd
  if ok a then .ok (a, rd) else .error .malformed

/-- Counts are bounded so that a client can hold them as native integers. -/
def u64WireBound : Nat := 2 ^ 63

def readCount : Reader Nat :=
  readChecked (readUnsigned (2 ^ 64)) fun n => decide (n < u64WireBound)

/-- A list whose length is checked before its elements. -/
def readBoundedArray {α : Type} (ok : Nat → Bool) (read : Reader α) : Reader (List α) :=
  fun rd => do
    let (n, rd) ← ofOption (readArrayLen rd)
    if ok n then
      boundLen n rd.length
      readMany read n rd
    else .error .malformed

def writeArray {α : Type} (write : α → Bytes) (l : List α) : Bytes :=
  writeArrayLen (l.length % 2 ^ 32) ++ l.flatMap write

end FerroEngine.CodecReaders
