import FerroEngine.DecimalText
import FerroEngine.MessagePackReader

set_option autoImplicit false

/-! # The client's MessagePack codec

`PurePacker` of `php/client/src/Protocol/Msgpack/PurePacker.php` on a 64-bit PHP, and `requireUint`
of `Value.php`. A PHP string is its bytes; a float is its bit pattern.
-/

namespace FerroEngine.PurePacker

open MessagePack (bigEndian)
open MessagePackReader (Bytes bigEndianValue signed)
open DecimalText

/-- A PHP `int`. -/
structure PhpInt where
  val : Int
  low : -2 ^ 63 ≤ val
  high : val < 2 ^ 63

/-- The `CodecException`s. -/
inductive CodecError where
  /-- `packUint: non-numeric string` -/
  | nonNumeric
  /-- `packUint got negative` -/
  | negative
  /-- `packUint value exceeds u64` -/
  | exceedsU64
  /-- `truncated: need %d bytes at offset %d, have %d` -/
  | truncated (need offset : Nat) (have_ : Int)
  /-- `array length {n} exceeds remaining bytes` -/
  | arrayLength (n : Nat)
  /-- `unknown msgpack marker 0x%02x` -/
  | unknownMarker (c : Nat)
  /-- `TypedValue tag ...: expected a non-negative int or decimal string` -/
  | notUint
  deriving DecidableEq, Repr

/-! ## Writing -/

/-- `chr`, which takes its argument modulo 256. -/
def chr (n : Int) : UInt8 :=
  UInt8.ofNat (n % 256).toNat

/-- `pack` with the big-endian formats `n`, `N` and `J`: the low bytes. -/
def packBytes (width : Nat) (n : Int) : Bytes :=
  bigEndian width (n % 2 ^ (8 * width)).toNat

def packInt (n : Int) : Bytes :=
  if 0 ≤ n then
    if n ≤ 0x7f then [chr n]
    else if n ≤ 0xff then [0xcc, chr n]
    else if n ≤ 0xffff then 0xcd :: packBytes 2 n
    else if n ≤ 0xffffffff then 0xce :: packBytes 4 n
    else 0xcf :: packBytes 8 n
  else if -32 ≤ n then [UInt8.ofNat (0xe0 ||| (n % 32).toNat)]
  else if -128 ≤ n then [0xd0, chr n]
  else if -32768 ≤ n then 0xd1 :: packBytes 2 n
  else if -2147483648 ≤ n then 0xd2 :: packBytes 4 n
  else 0xd3 :: packBytes 8 n

/-- The turns of `mulAdd` over the digits, last one first. -/
def mulAddLoop (mul : Nat) : Bytes → Nat → Bytes → Nat × Bytes
  | [], carry, out => (carry, out)
  | d :: ds, carry, out =>
    let prod := digit d * mul + carry
    mulAddLoop mul ds (prod / 10) (digitByte (prod % 10) :: out)

def carryOut (carry : Nat) (out : Bytes) : Bytes :=
  if carry = 0 then out else carryOut (carry / 10) (digitByte (carry % 10) :: out)

def mulAdd (dec : Bytes) (mul add : Nat) : Bytes :=
  let turns := mulAddLoop mul dec.reverse add []
  orZero (carryOut turns.1 turns.2)

def be64ToDec (be : Bytes) : Bytes :=
  be.foldl (fun dec byte => mulAdd dec 256 byte.toNat) [48]

def divmodLoop (div : Nat) : Bytes → Bytes → Nat → Bytes × Nat
  | [], q, rem => (q, rem)
  | d :: ds, q, rem =>
    let cur := rem * 10 + digit d
    divmodLoop div ds (q ++ decimal (cur / div)) (cur % div)

def divmod (dec : Bytes) (div : Nat) : Bytes × Nat :=
  let turns := divmodLoop div dec [] 0
  (orZero turns.1, turns.2)

/-- The bytes from position `pos` down to 0; those behind it are done. -/
def decToBe64Loop : Nat → Bytes → Bytes → Except CodecError Bytes
  | 0, n, bytes => if n ≠ [48] then .error .exceedsU64 else .ok bytes
  | pos + 1, n, bytes =>
    if n = [48] then .ok (List.replicate (pos + 1) 0 ++ bytes)
    else
      let (q, rem) := divmod n 256
      decToBe64Loop pos q (UInt8.ofNat rem :: bytes)

def decToBe64 (dec : Bytes) : Except CodecError Bytes :=
  decToBe64Loop 8 dec []

/-- `preg_match('/^\d+$/', $s)`: `$` also matches before a newline at the end. -/
def matchesDigits (s : Bytes) : Bool :=
  let body := if s.getLast? = some 10 then s.dropLast else s
  !body.isEmpty && body.all isDigit

/-- `(int) $s`: the leading digits, saturated. -/
def intval (s : Bytes) : Int :=
  min (value (s.takeWhile isDigit)) (2 ^ 63 - 1)

/-- `'9223372036854775807'`. -/
def maxDecimal : Bytes :=
  [57, 50, 50, 51, 51, 55, 50, 48, 51, 54, 56, 53, 52, 55, 55, 53, 56, 48, 55]

def packUintInt (n : Int) : Except CodecError Bytes :=
  if n < 0 then .error .negative
  else if n ≤ 0x7f then .ok [chr n]
  else if n ≤ 0xff then .ok [0xcc, chr n]
  else if n ≤ 0xffff then .ok (0xcd :: packBytes 2 n)
  else if n ≤ 0xffffffff then .ok (0xce :: packBytes 4 n)
  else .ok (0xcf :: packBytes 8 n)

inductive UintArg where
  | int (n : PhpInt)
  | str (s : Bytes)

def packUint : UintArg → Except CodecError Bytes
  | .str s =>
    if matchesDigits s = false then .error .nonNumeric
    else
      let trimmed := if trimZeros s = [] then [48] else trimZeros s
      if trimmed.length < maxDecimal.length ∨
          (trimmed.length = maxDecimal.length ∧ strcmpLe trimmed maxDecimal = true) then
        packUintInt (intval s)
      else (decToBe64 s).map (0xcf :: ·)
  | .int n => packUintInt n.val

/-- `requireUint` of a value that is an int or a string. -/
def requireUint : UintArg → Except CodecError UintArg
  | .int n => if 0 ≤ n.val then .ok (.int n) else .error .notUint
  | .str s => if matchesDigits s then .ok (.str s) else .error .notUint

def packStr (s : Bytes) : Bytes :=
  let len := s.length
  if len ≤ 31 then chr (0xa0 ||| len : Nat) :: s
  else if len ≤ 0xff then 0xd9 :: chr len :: s
  else if len ≤ 0xffff then 0xda :: packBytes 2 len ++ s
  else 0xdb :: packBytes 4 len ++ s

def packBin (s : Bytes) : Bytes :=
  let len := s.length
  if len ≤ 0xff then 0xc4 :: chr len :: s
  else if len ≤ 0xffff then 0xc5 :: packBytes 2 len ++ s
  else 0xc6 :: packBytes 4 len ++ s

/-- The low byte of `0x90 | $n` is that of its operands. -/
def packArrayLen (n : Int) : Bytes :=
  if n ≤ 15 then [UInt8.ofNat (0x90 ||| (n % 256).toNat)]
  else if n ≤ 0xffff then 0xdc :: packBytes 2 n
  else 0xdd :: packBytes 4 n

/-! ## Reading -/

inductive PhpValue where
  | null
  | bool (b : Bool)
  | int (n : Int)
  | float32 (bits : Nat)
  | float64 (bits : Nat)
  | str (s : Bytes)
  | array (items : List PhpValue)

def need (buf : Bytes) (offset len : Nat) : Except CodecError Unit :=
  if buf.length < offset + len then .error (.truncated len offset (buf.length - offset)) else .ok ()

/-- Every raw read: the next `len` bytes and the offset behind them. -/
def slice (buf : Bytes) (offset len : Nat) : Except CodecError (Bytes × Nat) :=
  (need buf offset len).map fun _ => ((buf.drop offset).take len, offset + len)

def readByte (buf : Bytes) (offset : Nat) : Except CodecError (Nat × Nat) :=
  (slice buf offset 1).map fun p => (bigEndianValue p.1, p.2)

def take (buf : Bytes) (offset len : Nat) : Except CodecError (PhpValue × Nat) :=
  (slice buf offset len).map fun p => (.str p.1, p.2)

def be (buf : Bytes) (offset bytes : Nat) (isSigned : Bool) :
    Except CodecError (PhpValue × Nat) :=
  (slice buf offset bytes).map fun p =>
    let v := bigEndianValue p.1
    if bytes < 8 then
      if isSigned ∧ 2 ^ (bytes * 8 - 1) ≤ v then (.int (v - 2 ^ (bytes * 8)), p.2)
      else (.int v, p.2)
    else if isSigned then (.int (signed 8 v), p.2)
    else if 0 ≤ signed 8 v then (.int (signed 8 v), p.2)
    else (.str (be64ToDec p.1), p.2)

def signed8 (buf : Bytes) (offset : Nat) : Except CodecError (PhpValue × Nat) :=
  (readByte buf offset).map fun p =>
    (.int (if p.1 < 128 then (p.1 : Int) else (p.1 : Int) - 256), p.2)

/-- `(int)` of an integer just read. -/
def intOf : PhpValue → Nat
  | .int n => n.toNat
  | .str s => (intval s).toNat
  | _ => 0

def unpackFloat (buf : Bytes) (offset width : Nat) (float : Nat → PhpValue) :
    Except CodecError (PhpValue × Nat) :=
  (slice buf offset width).map fun p => (float (bigEndianValue p.1), p.2)

/-- The loop of `unpackArray`. -/
def unpackItems (unpack : Nat → Except CodecError (PhpValue × Nat)) :
    Nat → Nat → Except CodecError (List PhpValue × Nat)
  | 0, offset => .ok ([], offset)
  | n + 1, offset =>
    (unpack offset).bind fun p =>
      (unpackItems unpack n p.2).map fun q => (p.1 :: q.1, q.2)

def unpackArray (unpack : Nat → Except CodecError (PhpValue × Nat)) (buf : Bytes)
    (offset n : Nat) : Except CodecError (PhpValue × Nat) :=
  if (buf.length : Int) - offset < n then .error (.arrayLength n)
  else (unpackItems unpack n offset).map fun p => (.array p.1, p.2)

/-- The body of `unpack`, over the recursive call on the same buffer. -/
def unpackBody (unpack : Nat → Except CodecError (PhpValue × Nat)) (buf : Bytes) (offset : Nat) :
    Except CodecError (PhpValue × Nat) :=
  (readByte buf offset).bind fun p =>
    let c := p.1
    let offset := p.2
    if c ≤ 0x7f then .ok (.int c, offset)
    else if 0xe0 ≤ c then .ok (.int (c - 0x100), offset)
    else if 0x90 ≤ c ∧ c ≤ 0x9f then unpackArray unpack buf offset (c % 16)
    else if 0xa0 ≤ c ∧ c ≤ 0xbf then take buf offset (c % 32)
    else
      match c with
      | 0xc0 => .ok (.null, offset)
      | 0xc2 => .ok (.bool false, offset)
      | 0xc3 => .ok (.bool true, offset)
      | 0xcc => (readByte buf offset).map fun q => (.int q.1, q.2)
      | 0xcd => be buf offset 2 false
      | 0xce => be buf offset 4 false
      | 0xcf => be buf offset 8 false
      | 0xd0 => signed8 buf offset
      | 0xd1 => be buf offset 2 true
      | 0xd2 => be buf offset 4 true
      | 0xd3 => be buf offset 8 true
      | 0xca => unpackFloat buf offset 4 .float32
      | 0xcb => unpackFloat buf offset 8 .float64
      | 0xd9 => (readByte buf offset).bind fun q => take buf q.2 q.1
      | 0xda => (be buf offset 2 false).bind fun q => take buf q.2 (intOf q.1)
      | 0xdb => (be buf offset 4 false).bind fun q => take buf q.2 (intOf q.1)
      | 0xc4 => (readByte buf offset).bind fun q => take buf q.2 q.1
      | 0xc5 => (be buf offset 2 false).bind fun q => take buf q.2 (intOf q.1)
      | 0xc6 => (be buf offset 4 false).bind fun q => take buf q.2 (intOf q.1)
      | 0xdc => (be buf offset 2 false).bind fun q => unpackArray unpack buf q.2 (intOf q.1)
      | 0xdd => (be buf offset 4 false).bind fun q => unpackArray unpack buf q.2 (intOf q.1)
      | _ => .error (.unknownMarker c)

/-- Nesting is at most as deep as there are bytes left, so the deepest call finds none. -/
def unpackWithin : Nat → Bytes → Nat → Except CodecError (PhpValue × Nat)
  | 0, buf, offset => .error (.truncated 1 offset (buf.length - offset))
  | fuel + 1, buf, offset => unpackBody (unpackWithin fuel buf) buf offset

def unpack (buf : Bytes) (offset : Nat) : Except CodecError (PhpValue × Nat) :=
  unpackWithin (buf.length - offset + 1) buf offset

end FerroEngine.PurePacker
