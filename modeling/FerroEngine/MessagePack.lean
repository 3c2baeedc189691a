import Mathlib.Algebra.Ring.Int.Defs
import Mathlib.Algebra.Ring.Nat
import Mathlib.Data.List.Basic

set_option autoImplicit false

/-! # MessagePack

The canonical writers: every length and every integer takes the shortest marker that holds it.
-/

namespace FerroEngine.MessagePack

/-- The low bytes of a number, most significant first. -/
def bigEndian : Nat → Nat → List UInt8
  | 0, _ => []
  | width + 1, n => UInt8.ofNat (n / 256 ^ width) :: bigEndian width n

theorem bigEndian_length (width n : Nat) : (bigEndian width n).length = width := by
  induction width with
  | zero => rfl
  | succ width ih => rw [bigEndian, List.length_cons, ih]

def writeNil : List UInt8 := [0xc0]

def writeBool (b : Bool) : List UInt8 := [if b then 0xc3 else 0xc2]

/-- A positive fixint; the value is below 128. -/
def writePfix (n : Nat) : List UInt8 := [UInt8.ofNat n]

def writeUint (n : Nat) : List UInt8 :=
  if n < 128 then writePfix n
  else if n < 2 ^ 8 then 0xcc :: bigEndian 1 n
  else if n < 2 ^ 16 then 0xcd :: bigEndian 2 n
  else if n < 2 ^ 32 then 0xce :: bigEndian 4 n
  else 0xcf :: bigEndian 8 n

/-- A negative number is written in two's complement. -/
def writeSint (n : Int) : List UInt8 :=
  if 0 ≤ n then writeUint n.toNat
  else if -32 ≤ n then bigEndian 1 (n + 2 ^ 8).toNat
  else if -2 ^ 7 ≤ n then 0xd0 :: bigEndian 1 (n + 2 ^ 8).toNat
  else if -2 ^ 15 ≤ n then 0xd1 :: bigEndian 2 (n + 2 ^ 16).toNat
  else if -2 ^ 31 ≤ n then 0xd2 :: bigEndian 4 (n + 2 ^ 32).toNat
  else 0xd3 :: bigEndian 8 (n + 2 ^ 64).toNat

/-- The bits of a double. -/
def writeF64 (bits : UInt64) : List UInt8 := 0xcb :: bigEndian 8 bits.toNat

def writeArrayLen (n : Nat) : List UInt8 :=
  if n < 16 then [UInt8.ofNat (0x90 + n)]
  else if n < 2 ^ 16 then 0xdc :: bigEndian 2 n
  else 0xdd :: bigEndian 4 n

def writeStrLen (n : Nat) : List UInt8 :=
  if n < 32 then [UInt8.ofNat (0xa0 + n)]
  else if n < 2 ^ 8 then 0xd9 :: bigEndian 1 n
  else if n < 2 ^ 16 then 0xda :: bigEndian 2 n
  else 0xdb :: bigEndian 4 n

def writeBinLen (n : Nat) : List UInt8 :=
  if n < 2 ^ 8 then 0xc4 :: bigEndian 1 n
  else if n < 2 ^ 16 then 0xc5 :: bigEndian 2 n
  else 0xc6 :: bigEndian 4 n

def writeStr (s : String) : List UInt8 :=
  writeStrLen s.toUTF8.size ++ s.toUTF8.toList

def writeBin (bytes : List UInt8) : List UInt8 :=
  writeBinLen bytes.length ++ bytes

/-- An absent field is written as `nil`. -/
def writeOption {α : Type} (write : α → List UInt8) : Option α → List UInt8
  | none => writeNil
  | some a => write a

theorem le_writeBin_length (bytes : List UInt8) : bytes.length ≤ (writeBin bytes).length := by
  rw [writeBin, List.length_append]
  omega

/-! ## Sizes -/

def uintSize (n : Nat) : Nat :=
  if n < 128 then 1
  else if n < 2 ^ 8 then 2
  else if n < 2 ^ 16 then 3
  else if n < 2 ^ 32 then 5
  else 9

def strSize (n : Nat) : Nat :=
  if n < 32 then n + 1
  else if n < 2 ^ 8 then n + 2
  else if n < 2 ^ 16 then n + 3
  else n + 5

@[simp] theorem writeNil_length : writeNil.length = 1 := rfl

@[simp] theorem writeBool_length (b : Bool) : (writeBool b).length = 1 := rfl

@[simp] theorem writePfix_length (n : Nat) : (writePfix n).length = 1 := rfl

theorem writeUint_length (n : Nat) : (writeUint n).length = uintSize n := by
  unfold writeUint uintSize
  split
  · rfl
  split
  · rw [List.length_cons, bigEndian_length]
  split
  · rw [List.length_cons, bigEndian_length]
  split
  · rw [List.length_cons, bigEndian_length]
  · rw [List.length_cons, bigEndian_length]

theorem uintSize_le (n : Nat) : uintSize n ≤ 9 := by
  unfold uintSize
  grind

theorem uintSize_pos (n : Nat) : 0 < uintSize n := by
  unfold uintSize
  grind

theorem writeUint_length_le (n : Nat) : (writeUint n).length ≤ 9 := by
  rw [writeUint_length]
  exact uintSize_le n

theorem writeSint_length_le (n : Int) : (writeSint n).length ≤ 9 := by
  unfold writeSint
  split
  · exact writeUint_length_le _
  split
  · rw [bigEndian_length]
    omega
  split
  · rw [List.length_cons, bigEndian_length]
    omega
  split
  · rw [List.length_cons, bigEndian_length]
    omega
  split
  · rw [List.length_cons, bigEndian_length]
    omega
  · exact Nat.le_of_eq (by rw [List.length_cons, bigEndian_length])

theorem writeArrayLen_length {n : Nat} (small : n < 16) : (writeArrayLen n).length = 1 := by
  rw [writeArrayLen, if_pos small]
  rfl

theorem writeArrayLen_length_le (n : Nat) : (writeArrayLen n).length ≤ 5 := by
  unfold writeArrayLen
  split
  · rw [List.length_singleton]
    omega
  split
  · rw [List.length_cons, bigEndian_length]
    omega
  · exact Nat.le_of_eq (by rw [List.length_cons, bigEndian_length])

theorem toListLoop_eq (bytes : ByteArray) (i : Nat) (acc : List UInt8) :
    ByteArray.toList.loop bytes i acc = acc.reverse ++ bytes.data.toList.drop i := by
  fun_induction ByteArray.toList.loop bytes i acc with
  | case1 i acc inside ih =>
    have here : i < bytes.data.toList.length := by simpa using inside
    have byte : bytes.get! i = bytes.data.toList[i] := by
      rw [ByteArray.get!]
      simp [getElem!_pos, inside]
    rw [ih, List.reverse_cons, List.append_assoc, List.singleton_append,
      List.drop_eq_getElem_cons here, byte]
  | case2 i acc outside =>
    have past : bytes.data.toList.length ≤ i := by simpa using outside
    rw [List.drop_eq_nil_of_le past, List.append_nil]

theorem toList_eq (bytes : ByteArray) : bytes.toList = bytes.data.toList := by
  rw [ByteArray.toList, toListLoop_eq, List.reverse_nil, List.nil_append, List.drop_zero]

theorem toUTF8_length (s : String) : s.toUTF8.toList.length = s.utf8ByteSize := by
  rw [toList_eq, Array.length_toList]
  rfl

theorem writeStr_length (s : String) : (writeStr s).length = strSize s.utf8ByteSize := by
  have size : s.toUTF8.size = s.utf8ByteSize := rfl
  rw [writeStr, List.length_append, toUTF8_length, size]
  unfold writeStrLen strSize
  split
  · rw [List.length_singleton]
    omega
  split
  · rw [List.length_cons, bigEndian_length]
    omega
  split
  · rw [List.length_cons, bigEndian_length]
    omega
  · rw [List.length_cons, bigEndian_length]
    omega

theorem strSize_le (n : Nat) : strSize n ≤ n + 5 := by
  unfold strSize
  grind

theorem strSize_of_large {n : Nat} (large : 2 ^ 16 ≤ n) : strSize n = n + 5 := by
  unfold strSize
  grind

theorem writeBin_length_le (bytes : List UInt8) :
    (writeBin bytes).length ≤ bytes.length + 5 := by
  rw [writeBin, List.length_append, writeBinLen]
  split
  · rw [List.length_cons, bigEndian_length]
    omega
  split
  · rw [List.length_cons, bigEndian_length]
    omega
  · rw [List.length_cons, bigEndian_length]
    omega

/-- A short byte string needs two bytes of header. -/
theorem writeBin_length_of_short {bytes : List UInt8} (short : bytes.length < 2 ^ 8) :
    (writeBin bytes).length = bytes.length + 2 := by
  rw [writeBin, List.length_append, writeBinLen, if_pos short, List.length_cons, bigEndian_length]
  omega

/-! ## Texts -/

theorem fromUTF8_toUTF8 (s : String) : String.fromUTF8? s.toUTF8.toList.toByteArray = some s := by
  have same : s.toUTF8.toList.toByteArray = s.toUTF8 := by
    apply ByteArray.ext
    rw [toList_eq, ← Array.toList_inj, List.toList_data_toByteArray]
  have valid : s.toUTF8.IsValidUTF8 := s.isValidUTF8
  rw [same, String.fromUTF8?, dif_pos valid]
  rfl

theorem toUTF8_of_fromUTF8 {l : List UInt8} {s : String}
    (valid : String.fromUTF8? l.toByteArray = some s) : s.toUTF8.toList = l := by
  rw [String.fromUTF8?] at valid
  split at valid
  · cases valid
    rw [toList_eq]
    exact List.toList_data_toByteArray
  · cases valid

end FerroEngine.MessagePack
