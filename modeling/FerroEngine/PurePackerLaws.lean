import Mathlib.Data.List.TakeWhile
import FerroEngine.PurePackerReading

set_option autoImplicit false

/-! # Exactness of the client's codec

The writers against the canonical ladder, and both against the decoder.
-/

namespace FerroEngine.PurePackerLaws

open MessagePack
open MessagePackReader (Bytes bigEndianValue bigEndianValue_bigEndian signed signed_toNat
  two_pow_width readArrayLen readArrayLen_writeArrayLen readBigEndian
  readBigEndian_append)
open DecimalText PurePacker PurePackerArithmetic PurePackerReading

/-! ## The ladder -/

theorem bigEndian_one (n : Nat) : bigEndian 1 n = [UInt8.ofNat n] := by
  rw [bigEndian, bigEndian, Nat.pow_zero, Nat.div_one]

theorem packBytes_nonneg {width : Nat} {n : Int} (low : 0 ≤ n) (high : n < 2 ^ (8 * width)) :
    packBytes width n = bigEndian width n.toNat := by
  rw [packBytes, Int.emod_eq_of_lt low high]

theorem packBytes_neg {width : Nat} {n : Int} (low : -2 ^ (8 * width) ≤ n) (high : n < 0) :
    packBytes width n = bigEndian width (n + 2 ^ (8 * width)).toNat := by
  rw [packBytes, ← Int.add_emod_right, Int.emod_eq_of_lt (by omega) (by omega)]

theorem chr_nonneg {n : Int} (low : 0 ≤ n) (high : n < 256) : [chr n] = bigEndian 1 n.toNat := by
  rw [chr, Int.emod_eq_of_lt low high, bigEndian_one]

theorem chr_neg {n : Int} (low : -256 ≤ n) (high : n < 0) :
    [chr n] = bigEndian 1 (n + 2 ^ 8).toNat := by
  rw [chr, ← Int.add_emod_right, Int.emod_eq_of_lt (by omega) (by omega), bigEndian_one]
  rfl

theorem packUintInt_eq {n : Int} (low : 0 ≤ n) (high : n < 2 ^ 63) :
    packUintInt n = .ok (writeUint n.toNat) := by
  have sign : ¬n < 0 := by omega
  have fix : n ≤ 0x7f ↔ n.toNat < 128 := by omega
  have one : n ≤ 0xff ↔ n.toNat < 2 ^ 8 := by omega
  have two : n ≤ 0xffff ↔ n.toNat < 2 ^ 16 := by omega
  have four : n ≤ 0xffffffff ↔ n.toNat < 2 ^ 32 := by omega
  unfold packUintInt writeUint
  simp only [if_neg sign, fix, one, two, four]
  split_ifs with h₁ h₂ h₃ h₄
  · rw [chr_nonneg low (by omega), bigEndian_one]
    rfl
  · rw [← chr_nonneg low (by omega)]
  · rw [packBytes_nonneg low (by omega)]
  · rw [packBytes_nonneg low (by omega)]
  · rw [packBytes_nonneg low (by omega)]

theorem packInt_eq {n : Int} (low : -2 ^ 63 ≤ n) (high : n < 2 ^ 63) :
    packInt n = writeSint n := by
  unfold packInt writeSint
  by_cases sign : 0 ≤ n
  · have same := packUintInt_eq sign high
    unfold packUintInt at same
    rw [if_neg (by omega)] at same
    rw [if_pos sign, if_pos sign]
    split_ifs at same ⊢ <;> exact Except.ok.inj same
  · have one : -128 ≤ n ↔ -2 ^ 7 ≤ n := by omega
    have two : -32768 ≤ n ↔ -2 ^ 15 ≤ n := by omega
    have four : -2147483648 ≤ n ↔ -2 ^ 31 ≤ n := by omega
    rw [if_neg sign, if_neg sign]
    simp only [one, two, four]
    split_ifs with h₁ h₂ h₃ h₄
    · have byte : 0xe0 ||| (n % 32).toNat = (n + 2 ^ 8).toNat := by
        have range : (n % 32).toNat < 2 ^ 5 := by omega
        have joined : 0xe0 + (n % 32).toNat = 0xe0 ||| (n % 32).toNat :=
          Nat.two_pow_add_eq_or_of_lt range 7
        omega
      rw [byte, bigEndian_one]
    · rw [← chr_neg (by omega) (by omega)]
    · rw [packBytes_neg (by omega) (by omega)]
    · rw [packBytes_neg (by omega) (by omega)]
    · rw [packBytes_neg (by omega) (by omega)]

/-! ## What the ladder's bytes are -/

theorem toNat_ofNat {n : Nat} (small : n < 256) : (UInt8.ofNat n).toNat = n := by
  rw [UInt8.toNat_ofNat']
  omega

theorem wire_fix {n : Nat} (small : n < 128) : Wire (.int n) [UInt8.ofNat n] := by
  refine .value ?_
  rw [toNat_ofNat (by omega)]
  exact if_pos (by omega)

theorem wire_uint {n width : Nat} {c : UInt8} (kind : shape c.toNat = .uint width)
    (small : n < 256 ^ width) : Wire (uintValue n) (c :: bigEndian width n) := by
  have wire := Wire.uint kind (bigEndian_length width n)
  rw [bigEndianValue_bigEndian, Nat.mod_eq_of_lt small] at wire
  exact wire

theorem wire_writeUint {n : Nat} (small : n < 2 ^ 64) : Wire (uintValue n) (writeUint n) := by
  unfold writeUint
  split_ifs with fix one two four
  · rw [uintValue, if_pos (by omega)]
    exact wire_fix fix
  · exact wire_uint rfl one
  · exact wire_uint rfl two
  · exact wire_uint rfl four
  · exact wire_uint rfl small

theorem wire_sint {n : Int} {width : Nat} {c : UInt8} (kind : shape c.toNat = .sint width)
    (positive : 0 < width) (low : -2 ^ (8 * width - 1) ≤ n) (high : n < 0) :
    Wire (.int n) (c :: bigEndian width (n + 2 ^ (8 * width)).toNat) := by
  have wire := Wire.sint kind (bigEndian_length width (n + 2 ^ (8 * width)).toNat)
  have double := two_pow_width positive
  have small : (n + 2 ^ (8 * width)).toNat < 256 ^ width := by
    have base : (256 : Nat) ^ width = 2 ^ (8 * width) := by rw [Nat.pow_mul]
    have cast : ((2 ^ (8 * width) : Nat) : Int) = 2 ^ (8 * width) := by norm_cast
    rw [base]
    omega
  rw [bigEndianValue_bigEndian, Nat.mod_eq_of_lt small, signed_toNat positive low high] at wire
  exact wire

theorem wire_writeSint {n : Int} (low : -2 ^ 63 ≤ n) (high : n < 2 ^ 63) :
    Wire (.int n) (writeSint n) := by
  unfold writeSint
  split_ifs with sign fix one two four
  · have wire := wire_writeUint (n := n.toNat) (by omega)
    rw [uintValue, if_pos (by omega), Int.toNat_of_nonneg sign] at wire
    exact wire
  · have byte : (n + 2 ^ 8).toNat < 256 := by omega
    rw [bigEndian_one]
    refine .value ?_
    unfold shape
    rw [toNat_ofNat byte, if_neg (by omega), if_pos (by omega)]
    congr 2
    omega
  · exact wire_sint rfl (by omega) (by omega) (by omega)
  · exact wire_sint rfl (by omega) (by omega) (by omega)
  · exact wire_sint rfl (by omega) (by omega) (by omega)
  · exact wire_sint rfl (by omega) (by omega) (by omega)

theorem wire_textLen {s : Bytes} {width : Nat} {c : UInt8} (kind : shape c.toNat = .textLen width)
    (small : s.length < 256 ^ width) : Wire (.str s) (c :: (bigEndian width s.length ++ s)) := by
  refine .textLen kind (bigEndian_length width s.length) ?_
  rw [bigEndianValue_bigEndian, Nat.mod_eq_of_lt small]

theorem wire_writeStrLen {s : Bytes} (small : s.length < 2 ^ 32) :
    Wire (.str s) (writeStrLen s.length ++ s) := by
  unfold writeStrLen
  split_ifs with fix one two
  · refine .text ?_
    unfold shape
    rw [toNat_ofNat (by omega), if_neg (by omega), if_neg (by omega), if_neg (by omega),
      if_pos (by omega)]
    congr 1
    omega
  · exact wire_textLen rfl one
  · exact wire_textLen rfl two
  · exact wire_textLen rfl small

theorem wire_writeBinLen {s : Bytes} (small : s.length < 2 ^ 32) :
    Wire (.str s) (writeBinLen s.length ++ s) := by
  unfold writeBinLen
  split_ifs with one two
  · exact wire_textLen rfl one
  · exact wire_textLen rfl two
  · exact wire_textLen rfl small

theorem wire_writeArrayLen {items : List PhpValue} {b : Bytes} (small : items.length < 2 ^ 32)
    (wires : Wires items b) : Wire (.array items) (writeArrayLen items.length ++ b) := by
  have counted : ∀ {width : Nat} {c : UInt8}, shape c.toNat = .arrayLen width →
      items.length < 256 ^ width →
      Wire (.array items) (c :: (bigEndian width items.length ++ b)) := by
    intro width c kind range
    refine .arrayLen kind (bigEndian_length width items.length) ?_ wires
    rw [bigEndianValue_bigEndian, Nat.mod_eq_of_lt range]
  unfold writeArrayLen
  split_ifs with fix two
  · refine .array ?_ wires
    unfold shape
    rw [toNat_ofNat (by omega), if_neg (by omega), if_neg (by omega), if_pos (by omega)]
    congr 1
    omega
  · exact counted rfl two
  · exact counted rfl small

/-! ## Strings and array lengths -/

/-- The decoder gives the value back, wherever its bytes stand, and ends behind them. -/
def ReadsBack (v : PhpValue) (b : Bytes) : Prop :=
  ∀ before after, unpack (before ++ b ++ after) before.length =
    .ok (v, before.length + b.length)

theorem packBytes_nat (width n : Nat) :
    packBytes width n = bigEndian width (n % 2 ^ (8 * width)) := by
  rw [packBytes]
  congr 1

theorem chr_nat {n : Nat} (small : n < 256) : [chr n] = bigEndian 1 n := by
  rw [chr_nonneg (by omega) (by omega), Int.toNat_natCast]

theorem packStr_eq {s : Bytes} (small : s.length < 2 ^ 32) :
    packStr s = writeStrLen s.length ++ s := by
  have fix : s.length ≤ 31 ↔ s.length < 32 := by omega
  have one : s.length ≤ 0xff ↔ s.length < 2 ^ 8 := by omega
  have two : s.length ≤ 0xffff ↔ s.length < 2 ^ 16 := by omega
  unfold packStr writeStrLen
  simp only [fix, one, two]
  split_ifs with h₁ h₂ h₃
  · have joined : 0xa0 + s.length = 0xa0 ||| s.length := Nat.two_pow_add_eq_or_of_lt (i := 5) h₁ 5
    have byte := chr_nat (n := 0xa0 ||| s.length) (by omega)
    rw [bigEndian_one] at byte
    rw [joined, ← byte]
    rfl
  · rw [← chr_nat h₂]
    rfl
  · rw [packBytes_nat, Nat.mod_eq_of_lt h₃]
  · rw [packBytes_nat, Nat.mod_eq_of_lt small]

theorem packBin_eq {s : Bytes} (small : s.length < 2 ^ 32) :
    packBin s = writeBinLen s.length ++ s := by
  have one : s.length ≤ 0xff ↔ s.length < 2 ^ 8 := by omega
  have two : s.length ≤ 0xffff ↔ s.length < 2 ^ 16 := by omega
  unfold packBin writeBinLen
  simp only [one, two]
  split_ifs with h₁ h₂
  · rw [← chr_nat h₁]
    rfl
  · rw [packBytes_nat, Nat.mod_eq_of_lt h₂]
  · rw [packBytes_nat, Nat.mod_eq_of_lt small]

/-- A length that four bytes do not hold is read as its remainder. -/
theorem not_readsBack_long {s : Bytes} {c : UInt8} (kind : shape c.toNat = .textLen 4)
    (long : 2 ^ 32 ≤ s.length) : ¬ReadsBack (.str s) (c :: (packBytes 4 s.length ++ s)) := by
  intro back
  have rest : s.length % 2 ^ 32 < 2 ^ 32 := Nat.mod_lt _ (by omega)
  have cut : (s.take (s.length % 2 ^ 32)).length = s.length % 2 ^ 32 := by
    rw [List.length_take]
    omega
  have read := unpack_wire (wire_textLen (s := s.take (s.length % 2 ^ 32)) kind
    (by rw [cut]; exact rest)) [] (s.drop (s.length % 2 ^ 32))
  have whole := back [] []
  rw [packBytes_nat] at whole
  rw [cut] at read
  simp only [List.nil_append, List.append_nil, List.cons_append, List.append_assoc,
    List.take_append_drop, List.length_nil, Nat.zero_add] at read whole
  rw [whole] at read
  have lengths := congrArg Prod.snd (Except.ok.inj read)
  simp only [List.length_cons, List.length_append, bigEndian_length, cut] at lengths
  omega

theorem packStr_long {s : Bytes} (long : 2 ^ 32 ≤ s.length) :
    packStr s = 0xdb :: (packBytes 4 s.length ++ s) := by
  unfold packStr
  dsimp only
  rw [if_neg (by omega), if_neg (by omega), if_neg (by omega)]
  rfl

theorem packBin_long {s : Bytes} (long : 2 ^ 32 ≤ s.length) :
    packBin s = 0xc6 :: (packBytes 4 s.length ++ s) := by
  unfold packBin
  dsimp only
  rw [if_neg (by omega), if_neg (by omega)]
  rfl

theorem packArrayLen_eq {n : Nat} (small : n < 2 ^ 32) : packArrayLen n = writeArrayLen n := by
  have fix : (n : Int) ≤ 15 ↔ n < 16 := by omega
  have two : (n : Int) ≤ 0xffff ↔ n < 2 ^ 16 := by omega
  unfold packArrayLen writeArrayLen
  simp only [fix, two]
  split_ifs with h₁ h₂
  · have joined : 0x90 + n = 0x90 ||| n := Nat.two_pow_add_eq_or_of_lt (i := 4) h₁ 9
    have whole : ((n : Int) % 256).toNat = n := by omega
    rw [whole, joined]
  · rw [packBytes_nat, Nat.mod_eq_of_lt h₂]
  · rw [packBytes_nat, Nat.mod_eq_of_lt small]

theorem packArrayLen_long {n : Nat} (long : 2 ^ 32 ≤ n) :
    readArrayLen (packArrayLen n) = some (n % 2 ^ 32, []) := by
  unfold packArrayLen
  rw [if_neg (by omega), if_neg (by omega), packBytes_nat]
  have read : readBigEndian 4 (bigEndian 4 (n % 2 ^ 32) ++ []) = some (n % 2 ^ 32, []) :=
    readBigEndian_append (Nat.mod_lt _ (by omega)) []
  rw [List.append_nil] at read
  exact read

/-! ## Decimal strings -/

/-- The numbers that `packUint` is for. -/
def IsUint (s : Bytes) : Prop :=
  s ≠ [] ∧ Digits s ∧ value s < 2 ^ 64

/-- A number with a newline behind it. -/
def Newlined (s d : Bytes) : Prop :=
  d ≠ [] ∧ Digits d ∧ s = d ++ [10]

theorem all_isDigit {s : Bytes} : s.all isDigit = true ↔ Digits s :=
  List.all_eq_true

theorem isDigit_newline : isDigit 10 = false := rfl

/-- What the regular expression accepts. -/
theorem matchesDigits_iff {s : Bytes} :
    matchesDigits s = true ↔ (s ≠ [] ∧ Digits s) ∨ ∃ d, Newlined s d := by
  unfold matchesDigits
  dsimp only
  rw [Bool.and_eq_true, Bool.not_eq_true', List.isEmpty_eq_false_iff, all_isDigit]
  by_cases last : s.getLast? = some 10
  · obtain ⟨d, rfl⟩ := List.getLast?_eq_some_iff.mp last
    rw [if_pos last, List.dropLast_concat]
    constructor
    · rintro ⟨more, digits⟩
      exact .inr ⟨d, more, digits, rfl⟩
    · rintro (⟨-, digits⟩ | ⟨d', more, digits, same⟩)
      · have none := digits 10 (List.mem_append_right d (List.mem_singleton_self 10))
        cases none
      · rw [(List.append_inj_left' same rfl)]
        exact ⟨more, digits⟩
  · rw [if_neg last]
    constructor
    · exact .inl
    · rintro (whole | ⟨d, -, -, rfl⟩)
      · exact whole
      · exact absurd List.getLast?_concat last

theorem value_maxDecimal : value maxDecimal = 2 ^ 63 - 1 := by
  decide

theorem digits_maxDecimal : Digits maxDecimal := by
  exact all_isDigit.mp rfl

/-- `packUint`'s own trimming. -/
def trimmed (s : Bytes) : Bytes :=
  if trimZeros s = [] then [48] else trimZeros s

theorem digits_trimmed {s : Bytes} (digits : Digits s) : Digits (trimmed s) := by
  unfold trimmed
  split
  · exact all_isDigit.mp rfl
  · exact trimZeros_subset digits

theorem value_trimmed (s : Bytes) : value (trimmed s) = value s := by
  have kept := value_trimZeros s
  unfold trimmed
  split
  · rename_i none
    rw [none] at kept
    exact kept
  · exact kept

/-- A trimmed number of more than one digit is as large as its length says. -/
theorem le_value_trimmed {s : Bytes} (digits : Digits s) (long : 1 < (trimmed s).length) :
    10 ^ ((trimmed s).length - 1) ≤ value s := by
  rw [← value_trimmed s]
  unfold trimmed at long ⊢
  split at long
  · exact absurd long (by decide)
  · rename_i some'
    rw [if_neg some']
    cases left : trimZeros s with
    | nil => exact absurd left some'
    | cons b rest =>
      have isOne : isDigit b = true := by
        refine trimZeros_subset digits b ?_
        rw [left]
        exact List.mem_cons_self
      exact le_value isOne (trimZeros_head left)

/-- The comparison with `PHP_INT_MAX` is one of values. -/
theorem small_iff {s : Bytes} (digits : Digits s) :
    ((trimmed s).length < maxDecimal.length ∨
        ((trimmed s).length = maxDecimal.length ∧ strcmpLe (trimmed s) maxDecimal = true)) ↔
      value s < 2 ^ 63 := by
  have size : maxDecimal.length = 19 := rfl
  have limit := value_maxDecimal
  have below := value_lt (trimmed s)
  rw [value_trimmed] at below
  rw [size]
  rcases Nat.lt_trichotomy (trimmed s).length 19 with short | equal | long
  · have bound : 10 ^ (trimmed s).length ≤ 10 ^ 18 := Nat.pow_le_pow_right (by omega) (by omega)
    exact ⟨fun _ => by omega, fun _ => .inl short⟩
  · have order := strcmpLe_iff (digits_trimmed digits) digits_maxDecimal (equal.trans size.symm)
    rw [order, value_trimmed, limit]
    constructor
    · rintro (short | ⟨-, le⟩)
      · omega
      · omega
    · intro small
      exact .inr ⟨equal, by omega⟩
  · have large := le_value_trimmed digits (by omega)
    have bound : 10 ^ 19 ≤ 10 ^ ((trimmed s).length - 1) :=
      Nat.pow_le_pow_right (by omega) (by omega)
    constructor
    · rintro (short | ⟨same, -⟩) <;> omega
    · intro small
      omega

theorem packUint_str (s : Bytes) (numeric : matchesDigits s = true) :
    packUint (.str s) =
      if (trimmed s).length < maxDecimal.length ∨
          ((trimmed s).length = maxDecimal.length ∧ strcmpLe (trimmed s) maxDecimal = true) then
        packUintInt (intval s)
      else (decToBe64 s).map (0xcf :: ·) := by
  rw [packUint, numeric]
  rfl

/-- On digits alone the writer is exact. -/
theorem packUint_digits {s : Bytes} (more : s ≠ []) (digits : Digits s) :
    packUint (.str s) =
      if value s < 2 ^ 64 then .ok (writeUint (value s)) else .error .exceedsU64 := by
  rw [packUint_str s (matchesDigits_iff.mpr (.inl ⟨more, digits⟩))]
  by_cases small : value s < 2 ^ 63
  · have all : s.takeWhile isDigit = s := List.takeWhile_eq_self_iff.mpr digits
    have cast : intval s = (value s : Int) := by
      rw [intval, all]
      omega
    rw [if_pos ((small_iff digits).mpr small), if_pos (by omega), cast,
      packUintInt_eq (by omega) (by omega), Int.toNat_natCast]
  · rw [if_neg (mt (small_iff digits).mp small), decToBe64_eq]
    by_cases fits : value s < 2 ^ 64
    · rw [if_pos fits, if_pos fits]
      change Except.ok (0xcf :: bigEndian 8 (value s)) = _
      unfold writeUint
      rw [if_neg (by omega), if_neg (by omega), if_neg (by omega), if_neg (by omega)]
    · rw [if_neg fits, if_neg fits]
      rfl

theorem value_newline (d : Bytes) : value (d ++ [10]) = 10 * value d :=
  value_concat d 10

/-- With a newline behind it a number is accepted exactly when its tenfold is a u64. -/
theorem packUint_newlined {s d : Bytes} (newlined : Newlined s d) :
    (∃ b, packUint (.str s) = .ok b) ↔ 10 * value d < 2 ^ 64 := by
  have numeric := matchesDigits_iff.mpr (.inr ⟨d, newlined⟩)
  obtain ⟨more, digits, rfl⟩ := newlined
  rw [packUint_str _ numeric, decToBe64_eq, value_newline]
  have kept : (trimmed (d ++ [10])).length = (trimZeros d).length + 1 := by
    have front : trimZeros (d ++ [10]) = trimZeros d ++ [10] := by
      unfold trimZeros
      rw [List.dropWhile_append]
      split
      · rename_i none
        rw [List.isEmpty_iff.mp none]
        rfl
      · rfl
    rw [trimmed, front, if_neg (by simp), List.length_append, List.length_singleton]
  have size : maxDecimal.length = 19 := rfl
  constructor
  · rintro ⟨b, accepted⟩
    by_contra large
    have below := value_lt (trimZeros d)
    rw [value_trimZeros] at below
    have digitsLeft : 19 ≤ (trimZeros d).length := by
      by_contra short
      have bound : 10 ^ (trimZeros d).length ≤ 10 ^ 18 :=
        Nat.pow_le_pow_right (by omega) (by omega)
      omega
    rw [if_neg (by omega), if_neg large] at accepted
    cases accepted
  · intro fits
    split
    · have range : 0 ≤ intval (d ++ [10]) ∧ intval (d ++ [10]) < 2 ^ 63 := by
        unfold intval
        omega
      exact ⟨_, packUintInt_eq range.1 range.2⟩
    · exact ⟨_, rfl⟩

/-! ## The codec's calls -/

inductive Call where
  | packInt (n : PhpInt)
  | packUint (n : UintArg)
  | packStr (s : Bytes)
  | packBin (s : Bytes)
  | packArrayLen (n : PhpInt)
  | unpack (buf : Bytes) (offset : Nat)

/-- The call writes the canonical bytes of its argument, which read back as that argument, or
refuses what is no argument; it reads one value or refuses. -/
def Exact : Call → Prop
  | .packInt n =>
    PurePacker.packInt n.val = writeSint n.val ∧
      ReadsBack (.int n.val) (PurePacker.packInt n.val)
  | .packUint (.int n) =>
    if n.val < 0 then ∃ e, PurePacker.packUint (.int n) = .error e
    else PurePacker.packUint (.int n) = .ok (writeUint n.val.toNat) ∧
      ReadsBack (.int n.val) (writeUint n.val.toNat)
  | .packUint (.str s) =>
    ((∃ b, PurePacker.packUint (.str s) = .ok b) ↔ IsUint s) ∧
      (IsUint s → PurePacker.packUint (.str s) = .ok (writeUint (value s)) ∧
        ReadsBack (uintValue (value s)) (writeUint (value s)))
  | .packStr s =>
    PurePacker.packStr s = writeStrLen s.length ++ s ∧ ReadsBack (.str s) (PurePacker.packStr s)
  | .packBin s =>
    PurePacker.packBin s = writeBinLen s.length ++ s ∧ ReadsBack (.str s) (PurePacker.packBin s)
  | .packArrayLen n =>
    ∃ len : Nat, (len : Int) = n.val ∧ PurePacker.packArrayLen n.val = writeArrayLen len ∧
      readArrayLen (PurePacker.packArrayLen n.val) = some (len, []) ∧
      ∀ items b, Wires items b → items.length = len →
        ReadsBack (.array items) (PurePacker.packArrayLen n.val ++ b)
  | .unpack buf offset =>
    ∀ v after, PurePacker.unpack buf offset = .ok (v, after) →
      offset < after ∧ after ≤ buf.length ∧ ∃ b, Wire v b ∧ Spans buf offset after b

/-- The calls on which the codec is exact. -/
def Clean : Call → Prop
  | .packInt _ => True
  | .packUint (.int _) => True
  | .packUint (.str s) => ¬∃ d, Newlined s d ∧ 10 * value d < 2 ^ 64
  | .packStr s => s.length < 2 ^ 32
  | .packBin s => s.length < 2 ^ 32
  | .packArrayLen n => 0 ≤ n.val ∧ n.val < 2 ^ 32
  | .unpack _ _ => True

theorem exact_packInt (n : PhpInt) : Exact (.packInt n) := by
  have same := packInt_eq n.low n.high
  refine ⟨same, ?_⟩
  rw [same]
  exact unpack_wire (wire_writeSint n.low n.high)

theorem exact_packUintInt (n : PhpInt) : Exact (.packUint (.int n)) := by
  have low := n.low
  have high := n.high
  by_cases sign : n.val < 0
  · change if n.val < 0 then _ else _
    rw [if_pos sign]
    exact ⟨.negative, if_pos sign⟩
  · change if n.val < 0 then _ else _
    rw [if_neg sign]
    refine ⟨packUintInt_eq (by omega) high, ?_⟩
    have wire := wire_writeUint (n := n.val.toNat) (by omega)
    rw [uintValue, if_pos (by omega), Int.toNat_of_nonneg (by omega)] at wire
    exact unpack_wire wire

theorem exact_packUintStr (s : Bytes) :
    Exact (.packUint (.str s)) ↔ ¬∃ d, Newlined s d ∧ 10 * value d < 2 ^ 64 := by
  constructor
  · rintro ⟨accepts, -⟩ ⟨d, newlined, fits⟩
    obtain ⟨-, digits, -⟩ := accepts.mp ((packUint_newlined newlined).mpr fits)
    obtain ⟨-, -, rfl⟩ := newlined
    have none := digits 10 (List.mem_append_right d (List.mem_singleton_self 10))
    cases none
  · intro clean
    have exact : IsUint s → packUint (.str s) = .ok (writeUint (value s)) := by
      rintro ⟨more, digits, fits⟩
      rw [packUint_digits more digits, if_pos fits]
    refine ⟨⟨?_, fun uint => ⟨_, exact uint⟩⟩, ?_⟩
    · rintro ⟨b, accepted⟩
      by_cases numeric : matchesDigits s = true
      · rcases matchesDigits_iff.mp numeric with ⟨more, digits⟩ | ⟨d, newlined⟩
        · refine ⟨more, digits, ?_⟩
          by_contra large
          rw [packUint_digits more digits, if_neg large] at accepted
          cases accepted
        · exact absurd ⟨d, newlined, (packUint_newlined newlined).mp ⟨b, accepted⟩⟩ clean
      · rw [packUint, if_pos (Bool.eq_false_iff.mpr numeric)] at accepted
        cases accepted
    · intro uint
      exact ⟨exact uint, unpack_wire (wire_writeUint uint.2.2)⟩

theorem exact_packStr (s : Bytes) : Exact (.packStr s) ↔ s.length < 2 ^ 32 := by
  constructor
  · rintro ⟨-, back⟩
    by_contra long
    rw [packStr_long (Nat.not_lt.mp long)] at back
    exact not_readsBack_long rfl (Nat.not_lt.mp long) back
  · intro small
    have same := packStr_eq small
    refine ⟨same, ?_⟩
    rw [same]
    exact unpack_wire (wire_writeStrLen small)

theorem exact_packBin (s : Bytes) : Exact (.packBin s) ↔ s.length < 2 ^ 32 := by
  constructor
  · rintro ⟨-, back⟩
    by_contra long
    rw [packBin_long (Nat.not_lt.mp long)] at back
    exact not_readsBack_long rfl (Nat.not_lt.mp long) back
  · intro small
    have same := packBin_eq small
    refine ⟨same, ?_⟩
    rw [same]
    exact unpack_wire (wire_writeBinLen small)

theorem exact_packArrayLen (n : PhpInt) :
    Exact (.packArrayLen n) ↔ 0 ≤ n.val ∧ n.val < 2 ^ 32 := by
  constructor
  · rintro ⟨len, same, -, read, -⟩
    refine ⟨by omega, ?_⟩
    by_contra long
    rw [← same, packArrayLen_long (by omega), Option.some.injEq, Prod.mk.injEq] at read
    have rest : len % 2 ^ 32 < 2 ^ 32 := Nat.mod_lt _ (by omega)
    omega
  · rintro ⟨low, high⟩
    obtain ⟨len, same⟩ := Int.eq_ofNat_of_zero_le low
    have small : len < 2 ^ 32 := by omega
    have written : packArrayLen n.val = writeArrayLen len := by
      rw [same]
      exact packArrayLen_eq small
    refine ⟨len, same.symm, written, ?_, ?_⟩
    · have read := readArrayLen_writeArrayLen small []
      rw [List.append_nil] at read
      rw [written, read]
    · intro items b wires counted
      rw [written, ← counted]
      exact unpack_wire (wire_writeArrayLen (counted ▸ small) wires)

theorem exact_unpack (buf : Bytes) (offset : Nat) : Exact (.unpack buf offset) := by
  intro v after done
  obtain ⟨b, wire, span⟩ := unpack_sound done
  have positive := wire.pos
  have moved := span.length
  exact ⟨by omega, span.inside, b, wire, span⟩

/-- The codec is exact on every argument but a newlined number, a string of 2^32 bytes and more,
and an array length that no array has or four bytes do not hold. -/
theorem exact_iff_clean (c : Call) : Exact c ↔ Clean c := by
  match c with
  | .packInt n => exact iff_of_true (exact_packInt n) trivial
  | .packUint (.int n) => exact iff_of_true (exact_packUintInt n) trivial
  | .packUint (.str s) => exact exact_packUintStr s
  | .packStr s => exact exact_packStr s
  | .packBin s => exact exact_packBin s
  | .packArrayLen n => exact exact_packArrayLen n
  | .unpack buf offset => exact iff_of_true (exact_unpack buf offset) trivial

/-- `"1000000000000000000\n"`. -/
def newlinedKey : Bytes :=
  49 :: List.replicate 18 48 ++ [10]

/-- The number goes out ten times as large. -/
theorem newlinedKey_tenfold :
    requireUint (.str newlinedKey) = .ok (.str newlinedKey) ∧
      packUint (.str newlinedKey) = .ok (writeUint (10 ^ 19)) ∧
      ¬Exact (.packUint (.str newlinedKey)) := by
  have newlined : Newlined newlinedKey (49 :: List.replicate 18 48) := by
    refine ⟨by simp, ?_, rfl⟩
    exact all_isDigit.mp rfl
  have number : value (49 :: List.replicate 18 48) = 10 ^ 18 := by
    decide
  have numeric := matchesDigits_iff.mpr (.inr ⟨_, newlined⟩)
  refine ⟨?_, ?_, ?_⟩
  · rw [requireUint, if_pos numeric]
  · have tenfold : value newlinedKey = 10 ^ 19 := by
      decide
    rw [packUint_str _ numeric, if_neg (by decide), decToBe64_eq, tenfold, if_pos (by decide)]
    rfl
  · rw [exact_packUintStr]
    intro clean
    exact clean ⟨_, newlined, by rw [number]; decide⟩

end FerroEngine.PurePackerLaws
