import Mathlib.Data.Int.Basic
import Mathlib.Tactic.Ring

set_option autoImplicit false

/-! # Binary floating point

The binary interchange formats as bits, with the conversion of an integer to the nearest number of
a format and the conversions between formats.
-/

namespace FerroEngine.BinaryFloat

/-- A format by the widths of its fraction and of its exponent. -/
structure FloatFormat where
  fraction : Nat
  exponent : Nat
  deriving DecidableEq, Repr

def binary32 : FloatFormat := ⟨23, 8⟩

def binary64 : FloatFormat := ⟨52, 11⟩

namespace FloatFormat

variable (f : FloatFormat)

/-- The exponent of the least positive number. -/
def lowest : Int :=
  2 - 2 ^ (f.exponent - 1) - f.fraction

def infinity : Nat :=
  (2 ^ f.exponent - 1) * 2 ^ f.fraction

def signBit : Nat :=
  2 ^ (f.fraction + f.exponent)

def exponentField (bits : Nat) : Nat :=
  bits / 2 ^ f.fraction % 2 ^ f.exponent

def fractionField (bits : Nat) : Nat :=
  bits % 2 ^ f.fraction

def isNegative (bits : Nat) : Bool :=
  decide (f.signBit ≤ bits)

def isFinite (bits : Nat) : Bool :=
  decide (f.exponentField bits ≠ 2 ^ f.exponent - 1)

def isNan (bits : Nat) : Bool :=
  !f.isFinite bits && decide (f.fractionField bits ≠ 0)

def isZero (bits : Nat) : Bool :=
  decide (f.exponentField bits = 0 ∧ f.fractionField bits = 0)

/-- The magnitude of a finite number, as `m * 2 ^ e`. -/
def parts (bits : Nat) : Nat × Int :=
  if f.exponentField bits = 0 then (f.fractionField bits, f.lowest)
  else (f.fractionField bits + 2 ^ f.fraction, f.lowest + f.exponentField bits - 1)

end FloatFormat

open FloatFormat

/-- `m / 2 ^ k` to the nearest integer, and a tie to the even one. -/
def roundShift (m k : Nat) : Nat :=
  if 2 * (m % 2 ^ k) < 2 ^ k ∨ 2 * (m % 2 ^ k) = 2 ^ k ∧ m / 2 ^ k % 2 = 0 then m / 2 ^ k
  else m / 2 ^ k + 1

/-- The bits of the number that is nearest to `m * 2 ^ e`, without a sign. A significand that
overflows carries into the exponent. -/
def nearest (f : FloatFormat) (m : Nat) (e : Int) : Nat :=
  if m = 0 then 0
  else
    let unit := max (e + Nat.log2 m - f.fraction) f.lowest
    let significand :=
      if unit ≤ e then m * 2 ^ (e - unit).toNat else roundShift m (unit - e).toNat
    min f.infinity ((unit - f.lowest).toNat * 2 ^ f.fraction + significand)

/-- The bits with a sign. -/
def withSign (f : FloatFormat) (negative : Bool) (bits : Nat) : Nat :=
  if negative then f.signBit + bits else bits

/-- An integer as a number of the format. -/
def ofInt (f : FloatFormat) (n : Int) : Nat :=
  withSign f (decide (n < 0)) (nearest f n.natAbs 0)

/-- The integer part of a finite number's magnitude. -/
def truncated (f : FloatFormat) (bits : Nat) : Nat :=
  let (m, e) := f.parts bits
  if 0 ≤ e then m * 2 ^ e.toNat else m / 2 ^ (-e).toNat

/-- A finite number as an integer, its fraction cut off. -/
def toInt (f : FloatFormat) (bits : Nat) : Int :=
  if f.isNegative bits then -truncated f bits else truncated f bits

/-- The number is the integer, both scaled to be whole. -/
structure Equals (f : FloatFormat) (bits : Nat) (n : Int) : Prop where
  finite : f.isFinite bits = true
  sign : f.isNegative bits = decide (n < 0)
  magnitude : (f.parts bits).1 * 2 ^ (f.parts bits).2.toNat =
    n.natAbs * 2 ^ (-(f.parts bits).2).toNat

/-- A number of one format in another. A NaN stays one: it is made quiet and keeps the high bits of
its payload. -/
def convert (source target : FloatFormat) (bits : Nat) : Nat :=
  withSign target (source.isNegative bits) <|
    if source.isNan bits then
      target.infinity + 2 ^ (target.fraction - 1) +
        source.fractionField bits / 2 ^ (source.fraction - target.fraction) %
          2 ^ (target.fraction - 1)
    else if source.isFinite bits then nearest target (source.parts bits).1 (source.parts bits).2
    else target.infinity

/-! ## Integers -/

theorem roundShift_bounds {m k width : Nat} (low : 2 ^ (width + k) ≤ m)
    (high : m < 2 ^ (width + 1 + k)) :
    2 ^ width ≤ roundShift m k ∧ roundShift m k ≤ 2 ^ (width + 1) := by
  rw [Nat.pow_add] at low high
  have floor : 2 ^ width ≤ m / 2 ^ k := (Nat.le_div_iff_mul_le (Nat.two_pow_pos k)).mpr low
  have ceiling : m / 2 ^ k < 2 ^ (width + 1) :=
    (Nat.div_lt_iff_lt_mul (Nat.two_pow_pos k)).mpr high
  unfold roundShift
  split <;> omega

theorem fields_normal (f : FloatFormat) {field frac : Nat} (small : field < 2 ^ f.exponent)
    (fits : frac < 2 ^ f.fraction) :
    f.exponentField (field * 2 ^ f.fraction + frac) = field ∧
      f.fractionField (field * 2 ^ f.fraction + frac) = frac := by
  have positive := Nat.two_pow_pos f.fraction
  constructor
  · rw [exponentField, Nat.add_comm, Nat.add_mul_div_right _ _ positive, Nat.div_eq_of_lt fits,
      Nat.zero_add, Nat.mod_eq_of_lt small]
  · rw [fractionField, Nat.add_comm, Nat.add_mul_mod_self_right, Nat.mod_eq_of_lt fits]

/-- The sign changes no field. -/
theorem fields_withSign (f : FloatFormat) (negative : Bool) (bits : Nat) :
    f.exponentField (withSign f negative bits) = f.exponentField bits ∧
      f.fractionField (withSign f negative bits) = f.fractionField bits := by
  cases negative with
  | false => exact ⟨rfl, rfl⟩
  | true =>
    have positive := Nat.two_pow_pos f.fraction
    rw [withSign, if_pos rfl, signBit, Nat.pow_add]
    constructor
    · rw [exponentField, exponentField, Nat.mul_add_div positive, Nat.add_mod_left]
    · rw [fractionField, fractionField, Nat.mul_add_mod_self_left]

theorem parts_withSign (f : FloatFormat) (negative : Bool) (bits : Nat) :
    f.parts (withSign f negative bits) = f.parts bits := by
  obtain ⟨field, frac⟩ := fields_withSign f negative bits
  rw [parts, parts, field, frac]

theorem isNegative_withSign (f : FloatFormat) (negative : Bool) {bits : Nat}
    (small : bits < f.signBit) : f.isNegative (withSign f negative bits) = negative := by
  cases negative with
  | false => exact decide_eq_false (by rw [withSign, if_neg Bool.false_ne_true]; omega)
  | true => exact decide_eq_true (by rw [withSign, if_pos rfl]; omega)

/-- A significand of full width above a number of units, with or without a carry. -/
theorem parts_unit (f : FloatFormat) {k significand : Nat} (low : 2 ^ f.fraction ≤ significand)
    (high : significand ≤ 2 ^ (f.fraction + 1)) (room : k + 2 < 2 ^ f.exponent - 1) :
    k * 2 ^ f.fraction + significand < f.infinity ∧
      ∃ field, 0 < field ∧ field < 2 ^ f.exponent - 1 ∧
        f.exponentField (k * 2 ^ f.fraction + significand) = field ∧
        (f.parts (k * 2 ^ f.fraction + significand) = (significand, f.lowest + k) ∨
          significand = 2 ^ (f.fraction + 1) ∧
          f.parts (k * 2 ^ f.fraction + significand) = (2 ^ f.fraction, f.lowest + k + 1)) := by
  have positive := Nat.two_pow_pos f.fraction
  have double : 2 ^ (f.fraction + 1) = 2 ^ f.fraction * 2 := Nat.pow_succ 2 f.fraction
  constructor
  · calc k * 2 ^ f.fraction + significand ≤ k * 2 ^ f.fraction + 2 ^ f.fraction * 2 := by omega
      _ = (k + 2) * 2 ^ f.fraction := by ring
      _ < f.infinity := Nat.mul_lt_mul_of_pos_right room positive
  · by_cases carry : significand = 2 ^ (f.fraction + 1)
    · have shape : k * 2 ^ f.fraction + significand = (k + 2) * 2 ^ f.fraction + 0 := by
        rw [carry, double]
        ring
      obtain ⟨field, frac⟩ := @fields_normal f (k + 2) _ (by omega) positive
      rw [shape]
      refine ⟨k + 2, by omega, room, field, .inr ⟨carry, ?_⟩⟩
      rw [parts, field, frac, if_neg (by omega), Nat.zero_add]
      refine congrArg _ ?_
      push_cast
      ring
    · have shape : k * 2 ^ f.fraction + significand =
          (k + 1) * 2 ^ f.fraction + (significand - 2 ^ f.fraction) := by
        rw [Nat.add_mul, Nat.one_mul]
        omega
      obtain ⟨field, frac⟩ := @fields_normal f (k + 1) _ (by omega)
        (show significand - 2 ^ f.fraction < 2 ^ f.fraction by omega)
      rw [shape]
      refine ⟨k + 1, by omega, by omega, field, .inl ?_⟩
      rw [parts, field, frac, if_neg (by omega), Nat.sub_add_cancel low]
      refine congrArg _ ?_
      push_cast
      ring

/-- The format holds an exponent and the integers of this width. -/
def Fits (f : FloatFormat) (n : Int) : Prop :=
  2 ≤ f.exponent ∧ n.natAbs.log2 + 1 < 2 ^ (f.exponent - 1)

theorem lowest_eq (f : FloatFormat) :
    f.lowest = 2 - ((2 ^ (f.exponent - 1) : Nat) : Int) - f.fraction := by
  rw [lowest]
  push_cast
  rfl

/-- The significand of a positive integer. -/
def intSignificand (f : FloatFormat) (m : Nat) : Nat :=
  if m.log2 ≤ f.fraction then m * 2 ^ (f.fraction - m.log2) else roundShift m (m.log2 - f.fraction)

theorem intSignificand_bounds (f : FloatFormat) {m : Nat} (positive : m ≠ 0) :
    2 ^ f.fraction ≤ intSignificand f m ∧ intSignificand f m ≤ 2 ^ (f.fraction + 1) ∧
      (m.log2 ≤ f.fraction → intSignificand f m < 2 ^ (f.fraction + 1)) := by
  have low := Nat.log2_self_le positive
  have high := @Nat.lt_log2_self m
  unfold intSignificand
  by_cases narrow : m.log2 ≤ f.fraction
  · rw [if_pos narrow]
    have split : 2 ^ f.fraction = 2 ^ m.log2 * 2 ^ (f.fraction - m.log2) := by
      rw [← Nat.pow_add, Nat.add_sub_cancel' narrow]
    have split' : 2 ^ (f.fraction + 1) = 2 ^ (m.log2 + 1) * 2 ^ (f.fraction - m.log2) := by
      rw [← Nat.pow_add]
      congr 1
      omega
    have below : m * 2 ^ (f.fraction - m.log2) < 2 ^ (f.fraction + 1) := by
      rw [split']
      exact Nat.mul_lt_mul_of_pos_right high (Nat.two_pow_pos _)
    refine ⟨?_, below.le, fun _ => below⟩
    rw [split]
    exact Nat.mul_le_mul_right _ low
  · rw [if_neg narrow]
    have width : f.fraction + (m.log2 - f.fraction) = m.log2 := by omega
    have width' : f.fraction + 1 + (m.log2 - f.fraction) = m.log2 + 1 := by omega
    obtain ⟨lower, upper⟩ := @roundShift_bounds m (m.log2 - f.fraction) f.fraction
      (by rw [width]; exact low) (by rw [width']; exact high)
    exact ⟨lower, upper, fun wide => absurd wide narrow⟩

theorem nearest_int (f : FloatFormat) {m : Nat} (positive : m ≠ 0) (wide : 2 ≤ f.exponent)
    (small : m.log2 + 1 < 2 ^ (f.exponent - 1)) :
    nearest f m 0 =
      (m.log2 + 2 ^ (f.exponent - 1) - 2) * 2 ^ f.fraction + intSignificand f m ∧
    f.lowest + ((m.log2 + 2 ^ (f.exponent - 1) - 2 : Nat) : Int) = m.log2 - f.fraction ∧
    m.log2 + 2 ^ (f.exponent - 1) - 2 + 2 < 2 ^ f.exponent - 1 := by
  have double : 2 ^ f.exponent = 2 ^ (f.exponent - 1) * 2 := by
    rw [← Nat.pow_succ]
    congr 1
    omega
  have two : 2 ≤ 2 ^ (f.exponent - 1) := by
    calc 2 = 2 ^ 1 := rfl
      _ ≤ 2 ^ (f.exponent - 1) := Nat.pow_le_pow_right (by decide) (by omega)
  have least := lowest_eq f
  have room : m.log2 + 2 ^ (f.exponent - 1) - 2 + 2 < 2 ^ f.exponent - 1 := by omega
  have unit : max ((0 : Int) + m.log2 - f.fraction) f.lowest = m.log2 - f.fraction := by omega
  have above : f.lowest + ((m.log2 + 2 ^ (f.exponent - 1) - 2 : Nat) : Int) =
      m.log2 - f.fraction := by omega
  have steps : ((m.log2 : Int) - f.fraction - f.lowest).toNat =
      m.log2 + 2 ^ (f.exponent - 1) - 2 := by omega
  have significand : (if (m.log2 : Int) - f.fraction ≤ 0 then
      m * 2 ^ ((0 : Int) - (m.log2 - f.fraction)).toNat
      else roundShift m ((m.log2 : Int) - f.fraction - 0).toNat) = intSignificand f m := by
    unfold intSignificand
    by_cases narrow : m.log2 ≤ f.fraction
    · have width : ((0 : Int) - (m.log2 - f.fraction)).toNat = f.fraction - m.log2 := by omega
      rw [if_pos (by omega), if_pos narrow, width]
    · have width : ((m.log2 : Int) - f.fraction - 0).toNat = m.log2 - f.fraction := by omega
      rw [if_neg (by omega), if_neg narrow, width]
  refine ⟨?_, above, room⟩
  obtain ⟨low, high, _⟩ := intSignificand_bounds f positive
  have below := (parts_unit f low high room).1
  rw [nearest, if_neg positive]
  dsimp only
  rw [unit, significand, steps, Nat.min_eq_right below.le]

theorem nearest_lt (f : FloatFormat) (m : Nat) (e : Int) : nearest f m e < f.signBit := by
  have top : f.infinity < f.signBit := by
    rw [infinity, signBit, Nat.add_comm, Nat.pow_add]
    have positive := Nat.two_pow_pos f.exponent
    exact Nat.mul_lt_mul_of_pos_right (by omega) (Nat.two_pow_pos _)
  rw [nearest]
  split
  · exact Nat.two_pow_pos _
  · exact Nat.lt_of_le_of_lt (Nat.min_le_left _ _) top

theorem ofInt_lt (f : FloatFormat) (n : Int) : ofInt f n < 2 * f.signBit := by
  have below := nearest_lt f n.natAbs 0
  unfold ofInt withSign
  split <;> omega

theorem toInt_natAbs (f : FloatFormat) (bits : Nat) : (toInt f bits).natAbs = truncated f bits := by
  unfold toInt
  split <;> omega

theorem ofInt_zero {f : FloatFormat} (wide : 2 ≤ f.exponent) : Equals f (ofInt f 0) 0 := by
  have four : 4 ≤ 2 ^ f.exponent := by
    calc 4 = 2 ^ 2 := rfl
      _ ≤ 2 ^ f.exponent := Nat.pow_le_pow_right (by decide) wide
  have sign : 0 < f.signBit := Nat.two_pow_pos _
  have bits : ofInt f 0 = 0 := rfl
  have field : f.exponentField 0 = 0 := by rw [exponentField, Nat.zero_div, Nat.zero_mod]
  have frac : f.fractionField 0 = 0 := Nat.zero_mod _
  rw [bits]
  refine ⟨decide_eq_true (by omega), ?_, ?_⟩
  · rw [isNegative, decide_eq_false (by omega)]
    rfl
  · rw [parts, if_pos field, frac, Nat.zero_mul, Int.natAbs_zero, Nat.zero_mul]

/-- An integer that survives the conversion is the number that it is converted to. -/
theorem ofInt_equals {f : FloatFormat} {n : Int} (fits : Fits f n)
    (survives : toInt f (ofInt f n) = n) : Equals f (ofInt f n) n := by
  obtain ⟨wide, small⟩ := fits
  by_cases zero : n = 0
  · subst zero
    exact ofInt_zero wide
  · have positive : n.natAbs ≠ 0 := Int.natAbs_ne_zero.mpr zero
    obtain ⟨bits, unit, room⟩ := nearest_int f positive wide small
    obtain ⟨low, high, exact'⟩ := intSignificand_bounds f positive
    obtain ⟨_, field, _, finite, fieldEq, shape⟩ := parts_unit f low high room
    rw [← bits] at fieldEq shape
    rw [unit] at shape
    have whole := congrArg Int.natAbs survives
    rw [toInt_natAbs, truncated] at whole
    unfold ofInt at whole ⊢
    have inside := nearest_lt f n.natAbs 0
    rw [parts_withSign] at whole
    refine ⟨?_, isNegative_withSign f _ inside, ?_⟩
    · rw [isFinite, (fields_withSign f _ _).1, fieldEq]
      exact decide_eq_true (by omega)
    · rw [parts_withSign]
      by_cases narrow : n.natAbs.log2 ≤ f.fraction
      · have carries : intSignificand f n.natAbs ≠ 2 ^ (f.fraction + 1) := (exact' narrow).ne
        obtain same | ⟨carry, _⟩ := shape
        · have up : ((n.natAbs.log2 : Int) - f.fraction).toNat = 0 := by omega
          have down : (-((n.natAbs.log2 : Int) - f.fraction)).toNat =
              f.fraction - n.natAbs.log2 := by omega
          rw [same]
          dsimp only
          rw [up, down, Nat.pow_zero, Nat.mul_one, intSignificand, if_pos narrow]
        · exact absurd carry carries
      · -- Above the precision every number of the format is an integer.
        have scaled : 0 ≤ (f.parts (nearest f n.natAbs 0)).2 := by
          obtain same | ⟨_, same⟩ := shape
          · rw [same]
            dsimp only
            omega
          · rw [same]
            dsimp only
            omega
        have down : (-(f.parts (nearest f n.natAbs 0)).2).toNat = 0 := by omega
        dsimp only at whole
        rw [if_pos scaled] at whole
        rw [down, Nat.pow_zero, Nat.mul_one]
        exact whole

end FerroEngine.BinaryFloat
