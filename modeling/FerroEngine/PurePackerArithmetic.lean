import FerroEngine.PurePacker

set_option autoImplicit false

/-! # Long arithmetic on decimal strings

`mulAdd`, `be64ToDec`, `divmod` and `decToBe64` compute with the values of their strings.
-/

namespace FerroEngine.PurePackerArithmetic

open MessagePack (bigEndian)
open MessagePackReader (Bytes bigEndianValue)
open DecimalText PurePacker

/-! ## Multiplying up -/

theorem digits_cons {d : Nat} {s : Bytes} (small : d < 10) (digits : Digits s) :
    Digits (digitByte d :: s) := by
  intro b member
  rcases List.mem_cons.mp member with rfl | inside
  · exact isDigit_digitByte small
  · exact digits b inside

/-- What the turns have done: the carry stands in front of the digits written. -/
theorem mulAddLoop_value (mul : Nat) (ds out : Bytes) (carry : Nat) :
    (mulAddLoop mul ds carry out).1 * 10 ^ (ds.length + out.length) +
        value (mulAddLoop mul ds carry out).2 =
      (value ds.reverse * mul + carry) * 10 ^ out.length + value out := by
  induction ds generalizing carry out with
  | nil => simp [mulAddLoop]
  | cons d ds ih =>
    have turn := ih (digitByte ((digit d * mul + carry) % 10) :: out) ((digit d * mul + carry) / 10)
    have split := Nat.div_add_mod (digit d * mul + carry) 10
    have last := digit_digitByte (Nat.mod_lt (digit d * mul + carry) (by omega : 0 < 10))
    rw [value_cons, last, List.length_cons] at turn
    rw [mulAddLoop, List.reverse_cons, value_concat, List.length_cons]
    have lengths : ds.length + 1 + out.length = ds.length + (out.length + 1) := by omega
    rw [lengths, turn]
    generalize (digit d * mul + carry) / 10 = q at *
    generalize (digit d * mul + carry) % 10 = r at *
    have total : (10 * value ds.reverse + digit d) * mul + carry =
        10 * (value ds.reverse * mul) + (10 * q + r) := by
      rw [split]
      ring
    rw [total, Nat.pow_succ]
    ring

theorem mulAddLoop_digits (mul : Nat) (ds out : Bytes) (carry : Nat) (digits : Digits out) :
    Digits (mulAddLoop mul ds carry out).2 := by
  induction ds generalizing carry out with
  | nil => exact digits
  | cons d ds ih =>
    rw [mulAddLoop]
    exact ih _ _ (digits_cons (Nat.mod_lt _ (by omega)) digits)

theorem mulAddLoop_length (mul : Nat) (ds out : Bytes) (carry : Nat) :
    (mulAddLoop mul ds carry out).2.length = ds.length + out.length := by
  induction ds generalizing carry out with
  | nil => rw [mulAddLoop, List.length_nil, Nat.zero_add]
  | cons d ds ih =>
    rw [mulAddLoop, ih, List.length_cons, List.length_cons]
    omega

theorem carryOut_spec (carry : Nat) (out : Bytes) (digits : Digits out) :
    Digits (carryOut carry out) ∧
      value (carryOut carry out) = carry * 10 ^ out.length + value out := by
  induction carry using Nat.strongRecOn generalizing out with
  | ind carry ih =>
    rw [carryOut]
    split
    · rename_i none
      rw [none]
      exact ⟨digits, by omega⟩
    · have small : carry % 10 < 10 := Nat.mod_lt _ (by omega)
      obtain ⟨kept, same⟩ := ih (carry / 10) (by omega) (digitByte (carry % 10) :: out)
        (digits_cons small digits)
      refine ⟨kept, ?_⟩
      have split := Nat.div_add_mod carry 10
      rw [same, value_cons, digit_digitByte small, List.length_cons, Nat.pow_succ]
      calc carry / 10 * (10 ^ out.length * 10) + (carry % 10 * 10 ^ out.length + value out)
          = (10 * (carry / 10) + carry % 10) * 10 ^ out.length + value out := by ring
        _ = carry * 10 ^ out.length + value out := by rw [split]

theorem mulAdd_eq (dec : Bytes) (mul add : Nat) :
    mulAdd dec mul add = decimal (value dec * mul + add) := by
  have digits : Digits (mulAddLoop mul dec.reverse add []).2 :=
    mulAddLoop_digits mul dec.reverse [] add (by intro b member; cases member)
  obtain ⟨written, total⟩ := carryOut_spec (mulAddLoop mul dec.reverse add []).1 _ digits
  have turns := mulAddLoop_value mul dec.reverse [] add
  rw [List.reverse_reverse] at turns
  rw [mulAdd, orZero_eq written, total, mulAddLoop_length, turns]
  simp

/-- The decimal string of eight bytes is the text of their number. -/
theorem be64ToDec_eq (be : Bytes) : be64ToDec be = decimal (bigEndianValue be) := by
  have general : ∀ (be : Bytes) (n : Nat),
      be.foldl (fun dec byte => mulAdd dec 256 byte.toNat) (decimal n) =
        decimal (n * 256 ^ be.length + bigEndianValue be) := by
    intro be
    induction be with
    | nil =>
      intro n
      simp [bigEndianValue]
    | cons b be ih =>
      intro n
      rw [List.foldl_cons, mulAdd_eq, value_decimal, ih, bigEndianValue, List.length_cons,
        Nat.pow_succ]
      congr 1
      ring
  have zero : decimal 0 = [48] := by
    rw [decimal, if_pos (by omega)]
    rfl
  have whole := general be 0
  rw [zero] at whole
  rw [be64ToDec, whole, Nat.zero_mul, Nat.zero_add]

/-! ## Dividing down -/

theorem divmodLoop_spec (ds q : Bytes) (rem : Nat) (small : rem < 256) (digits : Digits q) :
    Digits (divmodLoop 256 ds q rem).1 ∧ (divmodLoop 256 ds q rem).2 < 256 ∧
      value (divmodLoop 256 ds q rem).1 * 256 + (divmodLoop 256 ds q rem).2 =
        value q * 256 * 10 ^ ds.length + rem * 10 ^ ds.length + value ds := by
  induction ds generalizing q rem with
  | nil => exact ⟨digits, small, by simp [divmodLoop]⟩
  | cons d ds ih =>
    have bound := digit_lt d
    have one : (rem * 10 + digit d) / 256 < 10 := by omega
    have text : decimal ((rem * 10 + digit d) / 256) =
        [digitByte ((rem * 10 + digit d) / 256)] := by
      rw [decimal, if_pos one]
    have longer : Digits (q ++ decimal ((rem * 10 + digit d) / 256)) := by
      rw [text]
      intro b member
      rcases List.mem_append.mp member with before | last
      · exact digits b before
      · rw [List.mem_singleton] at last
        subst last
        exact isDigit_digitByte one
    obtain ⟨kept, below, total⟩ := ih (q ++ decimal ((rem * 10 + digit d) / 256))
      ((rem * 10 + digit d) % 256) (Nat.mod_lt _ (by omega)) longer
    rw [divmodLoop]
    refine ⟨kept, below, ?_⟩
    have split := Nat.div_add_mod (rem * 10 + digit d) 256
    rw [total, text, value_concat, digit_digitByte one, value_cons, List.length_cons, Nat.pow_succ]
    generalize (rem * 10 + digit d) / 256 = a at *
    generalize (rem * 10 + digit d) % 256 = r at *
    calc (10 * value q + a) * 256 * 10 ^ ds.length + r * 10 ^ ds.length + value ds
        = value q * 256 * (10 ^ ds.length * 10) + (256 * a + r) * 10 ^ ds.length + value ds := by
          ring
      _ = value q * 256 * (10 ^ ds.length * 10) + (rem * 10 + digit d) * 10 ^ ds.length +
            value ds := by rw [split]
      _ = value q * 256 * (10 ^ ds.length * 10) + rem * (10 ^ ds.length * 10) +
            (digit d * 10 ^ ds.length + value ds) := by ring

theorem divmod_eq (dec : Bytes) :
    divmod dec 256 = (decimal (value dec / 256), value dec % 256) := by
  obtain ⟨digits, below, total⟩ :=
    divmodLoop_spec dec [] 0 (by omega) (by intro b member; cases member)
  simp only [value_nil, Nat.zero_mul, Nat.zero_add] at total
  rw [divmod, orZero_eq digits]
  have quotient : value (divmodLoop 256 dec [] 0).1 = value dec / 256 := by omega
  have remainder : (divmodLoop 256 dec [] 0).2 = value dec % 256 := by omega
  rw [quotient, remainder]

theorem bigEndian_zero (width : Nat) : bigEndian width 0 = List.replicate width 0 := by
  induction width with
  | zero => rfl
  | succ width ih =>
    rw [bigEndian, ih, Nat.zero_div, List.replicate_succ]
    rfl

/-- The last byte is the remainder. -/
theorem bigEndian_concat (width n : Nat) :
    bigEndian (width + 1) n = bigEndian width (n / 256) ++ [UInt8.ofNat (n % 256)] := by
  induction width with
  | zero =>
    have same : UInt8.ofNat n = UInt8.ofNat (n % 256) := by
      apply UInt8.toNat_inj.mp
      rw [UInt8.toNat_ofNat', UInt8.toNat_ofNat']
      omega
    rw [bigEndian, bigEndian, bigEndian, Nat.pow_zero, Nat.div_one, same]
    rfl
  | succ width ih =>
    rw [bigEndian, ih, bigEndian, List.cons_append, Nat.div_div_eq_div_mul, Nat.pow_succ,
      Nat.mul_comm]

theorem decimal_eq_zero {n : Nat} : decimal n = [48] ↔ n = 0 := by
  constructor
  · intro zero
    have same := congrArg value zero
    rw [value_decimal] at same
    exact same
  · rintro rfl
    rw [decimal, if_pos (by omega)]
    rfl

theorem decToBe64Loop_eq (pos n : Nat) (bytes : Bytes) :
    decToBe64Loop pos (decimal n) bytes =
      if n < 256 ^ pos then .ok (bigEndian pos n ++ bytes) else .error .exceedsU64 := by
  induction pos generalizing n bytes with
  | zero =>
    rw [decToBe64Loop]
    by_cases zero : n = 0
    · rw [if_neg (not_not_intro (decimal_eq_zero.mpr zero)), if_pos (by simp [zero])]
      rfl
    · rw [if_pos (mt decimal_eq_zero.mp zero), if_neg (by simp [zero])]
  | succ pos ih =>
    rw [decToBe64Loop]
    by_cases zero : n = 0
    · rw [if_pos (decimal_eq_zero.mpr zero), zero, if_pos (Nat.pow_pos (by omega)),
        bigEndian_zero]
    · have bound : n / 256 < 256 ^ pos ↔ n < 256 ^ (pos + 1) := by
        rw [Nat.div_lt_iff_lt_mul (by omega), Nat.pow_succ]
      rw [if_neg (mt decimal_eq_zero.mp zero), divmod_eq, value_decimal]
      dsimp only
      rw [ih, bigEndian_concat]
      simp only [bound, List.append_assoc, List.singleton_append]

/-- The eight bytes of a decimal string, whatever its leading zeros. -/
theorem decToBe64_eq (dec : Bytes) :
    decToBe64 dec =
      if value dec < 2 ^ 64 then .ok (bigEndian 8 (value dec)) else .error .exceedsU64 := by
  rw [decToBe64, decToBe64Loop]
  by_cases zero : dec = [48]
  · subst zero
    rfl
  · have bound : value dec / 256 < 256 ^ 7 ↔ value dec < 2 ^ 64 := by
      omega
    rw [if_neg zero, divmod_eq]
    dsimp only
    rw [decToBe64Loop_eq, bigEndian_concat 7]
    simp only [bound]

end FerroEngine.PurePackerArithmetic
