import Mathlib.Algebra.Order.Floor.Semifield
import Mathlib.Algebra.BigOperators.Group.Finset.Basic
import Mathlib.Data.Rat.Floor
import Mathlib.Tactic.FieldSimp
import Mathlib.Tactic.Positivity
import FerroEngine.CanonicalTextAgreement

set_option autoImplicit false

/-! # PostgreSQL numbers are rendered exactly

The text of `numeric_to_text`, read as a decimal number, against the groups of the payload.
-/

namespace FerroEngine.PgNumeric

open DecimalText PgText CanonicalForms CanonicalTextAgreement
open MessagePackReader (bigEndianValue signed)

/-! ## The payload -/

def ndigits (raw : Text) : Int :=
  signed 2 (bigEndianValue (raw.take 2))

def weight (raw : Text) : Int :=
  signed 2 (bigEndianValue ((raw.drop 2).take 2))

def signWord (raw : Text) : Nat :=
  bigEndianValue ((raw.drop 4).take 2)

def dscale (raw : Text) : Nat :=
  bigEndianValue ((raw.drop 6).take 2)

/-- The base-10000 groups. -/
def groups (raw : Text) : List Int :=
  words (raw.drop 8)

/-- A sign word that is there and is neither an infinity's nor the one of `NaN`. -/
def FiniteSign (raw : Text) : Prop :=
  6 ≤ raw.length ∧ (signWord raw = signPos ∨ signWord raw = signNeg)

structure WellFormed (raw : Text) : Prop where
  count : 0 ≤ ndigits raw
  length : raw.length = 8 + 2 * (ndigits raw).toNat
  range : ∀ d ∈ groups raw, 0 ≤ d ∧ d ≤ 9999
  scale : dscale raw ≤ maxDscale

/-- The value that the payload stands for. -/
def represented (raw : Text) : ℚ :=
  (if signWord raw = signNeg then -1 else 1) *
    ∑ i ∈ Finset.range (groups raw).length,
      ((groups raw).getD i 0 : ℚ) * 10000 ^ (weight raw - i)

/-- Toward zero. -/
def truncate (places : Nat) (q : ℚ) : ℚ :=
  if 0 ≤ q then ⌊q * 10 ^ places⌋ / 10 ^ places else ⌈q * 10 ^ places⌉ / 10 ^ places

/-! ## The text -/

def isNegative (text : Text) : Bool :=
  text.head? = some 45

def body (text : Text) : Text :=
  if isNegative text then text.tail else text

def integerPart (text : Text) : Text :=
  (body text).takeWhile (· != 46)

def fractionPart (text : Text) : Text :=
  ((body text).dropWhile (· != 46)).drop 1

/-- The number that a text with a sign and a point reads as. -/
def readDecimal (text : Text) : ℚ :=
  (if isNegative text then -1 else 1) *
    (value (integerPart text ++ fractionPart text) / 10 ^ (fractionPart text).length)

/-- `0` alone, or no zero in front. -/
def NoLeadingZero (text : Text) : Prop :=
  integerPart text = [48] ∨ (integerPart text).head? ≠ some 48

/-- The first group is not zero, or there is none and the weight is zero. -/
def CanonicalForm (raw : Text) : Prop :=
  (∃ d, (groups raw).head? = some d ∧ d ≠ 0) ∨ (groups raw = [] ∧ weight raw = 0)

/-! ## Groups as fractions -/

/-- The groups behind the point: the first weighs a ten-thousandth. -/
def tail : List Nat → ℚ
  | [] => 0
  | g :: gs => (g + tail gs) / 10000

theorem tail_range {gs : List Nat} (range : InRange gs) : 0 ≤ tail gs ∧ tail gs < 1 := by
  induction gs with
  | nil => exact ⟨le_refl _, zero_lt_one⟩
  | cons g gs ih =>
    obtain ⟨low, high⟩ := ih fun d member => range d (List.mem_cons_of_mem g member)
    have small : (g : ℚ) ≤ 9999 := by
      exact_mod_cast range g List.mem_cons_self
    have positive : (0 : ℚ) ≤ g := Nat.cast_nonneg g
    rw [tail]
    constructor
    · positivity
    · rw [div_lt_one (by norm_num)]
      linarith

theorem sum_eq_tail (gs : List Nat) (w : Int) :
    ∑ i ∈ Finset.range gs.length, (gs.getD i 0 : ℚ) * 10000 ^ (w - i) =
      tail gs * 10000 ^ (w + 1) := by
  induction gs generalizing w with
  | nil => simp [tail]
  | cons g gs ih =>
    rw [List.length_cons, Finset.sum_range_succ']
    have later := ih (w - 1)
    have shift : ∀ i : Nat, w - ((i + 1 : Nat) : Int) = w - 1 - (i : Int) := by
      intro i
      push_cast
      ring
    simp only [List.getD_cons_succ, List.getD_cons_zero, shift, later, tail, Nat.cast_zero,
      sub_zero, sub_add_cancel]
    rw [zpow_add₀ (by norm_num : (10000 : ℚ) ≠ 0), zpow_one]
    ring

/-- The groups in front of the point. -/
def front (gs : List Nat) : Nat → Nat
  | 0 => 0
  | k + 1 => (gs.getD 0 0) * 10000 ^ k + front gs.tail k

theorem tail_split (gs : List Nat) (k : Nat) :
    tail gs * 10000 ^ k = front gs k + tail (gs.drop k) := by
  induction k generalizing gs with
  | zero => simp [front]
  | succ k ih =>
    cases gs with
    | nil =>
      have none := ih []
      rw [List.drop_nil] at none ⊢
      have zero : front [] (k + 1) = front [] k := by simp [front]
      rw [zero, pow_succ, ← mul_assoc, none]
      simp only [tail] at none ⊢
      linarith
    | cons g gs =>
      have later := ih gs
      rw [front, List.drop_succ_cons, List.getD_cons_zero, List.tail_cons, tail]
      push_cast
      rw [add_assoc, ← later, pow_succ]
      ring

/-! ## Groups as texts -/

theorem pushChars_true (chars : Text) : pushChars true chars = chars := by
  induction chars with
  | nil => rfl
  | cons c chars ih =>
    rw [pushChars, if_neg (by simp), ih]

theorem value_pushChars (started : Bool) (chars : Text) :
    value (pushChars started chars) = value chars := by
  induction chars with
  | nil => rfl
  | cons c chars ih =>
    rw [pushChars]
    split
    · rename_i skipped
      rw [ih, value_cons, skipped.2.1]
      have zero : digit 48 = 0 := rfl
      rw [zero, Nat.zero_mul, Nat.zero_add]
    · rw [pushChars_true]

theorem value_groupChars {dig take : Nat} (range : dig ≤ 9999) (some_ : 0 < take)
    (four : take ≤ 4) : value ((groupChars dig).take take) = dig / 10 ^ (4 - take) := by
  have thousands : digit (digitByte (dig / 1000)) = dig / 1000 := digit_digitByte (by omega)
  have hundreds : digit (digitByte (dig / 100 % 10)) = dig / 100 % 10 := digit_digitByte (by omega)
  have tens : digit (digitByte (dig / 10 % 10)) = dig / 10 % 10 := digit_digitByte (by omega)
  have ones : digit (digitByte (dig % 10)) = dig % 10 := digit_digitByte (by omega)
  have cases : take = 1 ∨ take = 2 ∨ take = 3 ∨ take = 4 := by omega
  obtain rfl | rfl | rfl | rfl := cases
  all_goals
    simp only [groupChars, List.take_succ_cons, List.take_zero, value, List.foldl_cons,
      List.foldl_nil, thousands, hundreds, tens, ones]
    omega

theorem value_pushGroup {dig take : Nat} (range : dig ≤ 9999) (some_ : 0 < take)
    (four : take ≤ 4) (stripLeading : Bool) :
    value (pushGroup dig take stripLeading) = dig / 10 ^ (4 - take) := by
  rw [pushGroup, value_pushChars, value_groupChars range some_ four]

theorem pushGroup_length {dig take : Nat} (four : take ≤ 4) :
    (pushGroup dig take false).length = take := by
  rw [pushGroup, Bool.not_false, pushChars_true, List.length_take]
  simp only [groupChars, List.length_cons, List.length_nil]
  omega

theorem integerGroups_length (digits : List Nat) (i k : Nat) :
    (integerGroups digits (i + 1) k).length = 4 * k := by
  induction k generalizing i with
  | zero => rfl
  | succ k ih =>
    have later : (i + 1 == 0) = false := rfl
    rw [integerGroups, later, List.length_append, pushGroup_length (le_refl 4), ih]
    omega

theorem value_integerGroups {digits : List Nat} (range : InRange digits) (i k : Nat) :
    value (integerGroups digits i k) = front (digits.drop i) k := by
  induction k generalizing i with
  | zero => rfl
  | succ k ih =>
    have whole : 10 ^ (4 - 4) = 1 := rfl
    have first : (digits[i]?).getD 0 = (digits.drop i).getD 0 0 := by
      rw [List.getD_eq_getElem?_getD, List.getElem?_drop, Nat.add_zero]
    have width : (10 : Nat) ^ (4 * k) = 10000 ^ k := by
      rw [Nat.pow_mul]
    rw [integerGroups, value_append, value_pushGroup (getD_inRange range i) (by omega) (le_refl 4),
      integerGroups_length, ih, front, List.tail_drop, whole, Nat.div_one, first, width]

theorem fractionGroups_length (digits : List Nat) (idx : Int) (left : Nat) :
    (fractionGroups digits idx left).length = left := by
  induction left using Nat.strongRecOn generalizing idx with
  | _ left ih =>
    unfold fractionGroups
    split
    · rename_i none
      rw [none]
      rfl
    · rw [List.length_append, pushGroup_length (by omega), ih (left - 4) (by omega)]
      omega

/-- What stands behind an index, as a fraction. -/
def behind (digits : List Nat) (idx : Int) : ℚ :=
  if 0 ≤ idx then tail (digits.drop idx.toNat) else tail digits / 10000 ^ (-idx).toNat

theorem behind_succ (digits : List Nat) (idx : Int) :
    behind digits idx * 10000 = digitAt digits idx + behind digits (idx + 1) := by
  unfold behind digitAt
  by_cases inside : 0 ≤ idx
  · have next : (idx + 1).toNat = idx.toNat + 1 := by omega
    rw [if_pos inside, if_pos inside, if_pos (by omega : 0 ≤ idx + 1), next, ← List.tail_drop]
    have first : (digits[idx.toNat]?).getD 0 = (digits.drop idx.toNat).getD 0 0 := by
      rw [List.getD_eq_getElem?_getD, List.getElem?_drop, Nat.add_zero]
    rw [first]
    cases digits.drop idx.toNat with
    | nil => simp [tail]
    | cons g gs =>
      rw [tail, List.getD_cons_zero, List.tail_cons]
      field_simp
  · rw [if_neg inside, if_neg inside, Nat.cast_zero, zero_add]
    by_cases last : 0 ≤ idx + 1
    · have one : idx = -1 := by omega
      rw [if_pos last, one]
      simp
    · obtain ⟨k, same⟩ := Int.eq_ofNat_of_zero_le (by omega : 0 ≤ -idx - 1)
      have here : (-idx).toNat = k + 1 := by omega
      have next : (-(idx + 1)).toNat = k := by omega
      rw [if_neg last, here, next, pow_succ]
      field_simp

theorem behind_range {digits : List Nat} (range : InRange digits) (idx : Int) :
    0 ≤ behind digits idx ∧ behind digits idx < 1 := by
  unfold behind
  split
  · exact tail_range fun d member => range d (List.mem_of_mem_drop member)
  · obtain ⟨low, high⟩ := tail_range range
    refine ⟨by positivity, ?_⟩
    rw [div_lt_one (by positivity)]
    exact high.trans_le (one_le_pow₀ (by norm_num))

theorem value_fractionGroups {digits : List Nat} (range : InRange digits) (idx : Int)
    (left : Nat) :
    value (fractionGroups digits idx left) = ⌊behind digits idx * 10 ^ left⌋₊ := by
  induction left using Nat.strongRecOn generalizing idx with
  | _ left ih =>
    unfold fractionGroups
    obtain ⟨low, high⟩ := behind_range range (idx + 1)
    have step := behind_succ digits idx
    split
    · rename_i none
      have here := behind_range range idx
      rw [none, pow_zero, mul_one, Nat.floor_eq_zero.mpr here.2]
      rfl
    · rename_i more
      have group := digitAt_inRange range idx
      rw [value_append, fractionGroups_length, ih (left - 4) (by omega),
        value_pushGroup group (by omega) (by omega)]
      by_cases long : 4 ≤ left
      · obtain ⟨k, rfl⟩ := Nat.exists_eq_add_of_le long
        have four : min (4 + k) 4 = 4 := by omega
        have rest : 4 + k - 4 = k := by omega
        have scaled : behind digits idx * 10 ^ (4 + k) =
            behind digits (idx + 1) * 10 ^ k + (digitAt digits idx * 10 ^ k : Nat) := by
          push_cast
          rw [← add_mul, add_comm (behind digits (idx + 1)), ← step, pow_add]
          ring
        have whole : digitAt digits idx / 10 ^ (4 - 4) = digitAt digits idx := Nat.div_one _
        rw [four, rest, whole, scaled, Nat.floor_add_natCast (by positivity), Nat.add_comm]
      · have short : min left 4 = left := by omega
        have rest : left - 4 = 0 := by omega
        obtain ⟨k, same⟩ := Nat.exists_eq_add_of_le (by omega : left ≤ 4)
        have remaining : 4 - left = k := by omega
        have scaled : behind digits idx * 10 ^ left =
            (digitAt digits idx + behind digits (idx + 1)) / (10 ^ k : Nat) := by
          rw [← step]
          push_cast
          rw [eq_div_iff (by positivity), mul_assoc, ← pow_add, ← same]
          norm_num
        have whole : ⌊(digitAt digits idx : ℚ) + behind digits (idx + 1)⌋₊ =
            digitAt digits idx := by
          rw [add_comm, Nat.floor_add_natCast low, Nat.floor_eq_zero.mpr high, Nat.zero_add]
        have none : ⌊behind digits (idx + 1) * 10 ^ 0⌋₊ = 0 := by
          rw [pow_zero, mul_one, Nat.floor_eq_zero.mpr high]
        rw [short, rest, remaining, scaled, Nat.floor_div_natCast, whole, none, Nat.pow_zero,
          Nat.mul_one, Nat.add_zero]

/-! ## The whole text -/

section

variable {digits : List Nat} (range : InRange digits) (w : Int) (d : Nat)
include range

/-- The text in front of the point. -/
def integerText (digits : List Nat) (w : Int) : Text :=
  if w < 0 then [48] else integerGroups digits 0 (w.toNat + 1)

omit range in
theorem renderNumeric_eq (sign : Nat) :
    renderNumeric w sign d digits = (if sign = signNeg then [45] else []) ++
      (integerText digits w ++ if 0 < d then 46 :: fractionGroups digits (w + 1) d else []) :=
  rfl

theorem integerText_number : Number (integerText digits w) := by
  unfold integerText
  split
  · exact ⟨List.cons_ne_nil _ _, List.all_eq_true.mp rfl⟩
  · exact integerGroups_number range _ 0

theorem magnitude_split :
    tail digits * 10000 ^ (w + 1) = value (integerText digits w) + behind digits (w + 1) := by
  unfold integerText behind
  by_cases negative : w < 0
  · have zero : value [48] = 0 := rfl
    rw [if_pos negative, zero, Nat.cast_zero, zero_add]
    by_cases last : 0 ≤ w + 1
    · have point : w + 1 = 0 := by omega
      rw [point]
      simp
    · obtain ⟨k, same⟩ := Int.eq_ofNat_of_zero_le (by omega : 0 ≤ -(w + 1))
      have exponent : w + 1 = -(k : Int) := by omega
      rw [if_neg last, exponent, neg_neg, Int.toNat_natCast, zpow_neg, zpow_natCast,
        div_eq_mul_inv]
  · obtain ⟨k, rfl⟩ := Int.eq_ofNat_of_zero_le (by omega : 0 ≤ w)
    have count : ((k : Int) + 1).toNat = k + 1 := by omega
    have exponent : (k : Int) + 1 = ((k + 1 : Nat) : Int) := by push_cast; rfl
    rw [if_neg negative, if_pos (by omega), count, Int.toNat_natCast,
      value_integerGroups range, List.drop_zero, ← tail_split, exponent, zpow_natCast]

/-- All the digits, read as one number. -/
theorem value_digits :
    value (integerText digits w ++ fractionGroups digits (w + 1) d) =
      ⌊tail digits * 10000 ^ (w + 1) * 10 ^ d⌋₊ := by
  have low := (behind_range range (w + 1)).1
  have scaled : tail digits * 10000 ^ (w + 1) * 10 ^ d =
      behind digits (w + 1) * 10 ^ d + (value (integerText digits w) * 10 ^ d : Nat) := by
    rw [magnitude_split range]
    push_cast
    ring
  rw [value_append, fractionGroups_length, value_fractionGroups range, scaled,
    Nat.floor_add_natCast (by positivity), Nat.add_comm]

end

theorem digit_ne_point {b : UInt8} (isOne : isDigit b = true) : (b != 46) = true := by
  rw [bne_iff_ne]
  rintro rfl
  cases isOne

theorem takeWhile_integer {int rest : Text} (all : Digits int)
    (stop : rest = [] ∨ ∃ frac, rest = 46 :: frac) :
    (int ++ rest).takeWhile (· != 46) = int ∧ (int ++ rest).dropWhile (· != 46) = rest := by
  induction int with
  | nil =>
    obtain rfl | ⟨frac, rfl⟩ := stop
    · exact ⟨rfl, rfl⟩
    · exact ⟨rfl, rfl⟩
  | cons b int ih =>
    have point := digit_ne_point (all b List.mem_cons_self)
    have later := ih fun c member => all c (List.mem_cons_of_mem b member)
    simp [point, later]

/-- A number with its sign and, if there are digits behind it, its point. -/
def signedText (negative : Bool) (int frac : Text) : Text :=
  (if negative then [45] else []) ++ (int ++ if 0 < frac.length then 46 :: frac else [])

section

variable {negative : Bool} {int frac : Text} (number : Number int)
include number

theorem isNegative_signedText : isNegative (signedText negative int frac) = negative := by
  unfold signedText
  cases negative with
  | true => rfl
  | false =>
    obtain ⟨b, tail, shape, isOne⟩ :=
      CanonicalTextLaws.number_head number (if 0 < frac.length then 46 :: frac else [])
    have digit : b ≠ 45 := by
      rintro rfl
      cases isOne
    change isNegative (int ++ _) = false
    rw [shape]
    unfold isNegative
    simp [digit]

theorem body_signedText : body (signedText negative int frac) =
    int ++ if 0 < frac.length then 46 :: frac else [] := by
  unfold body
  rw [isNegative_signedText number]
  cases negative with
  | true => rfl
  | false => rfl

theorem parts_signedText : integerPart (signedText negative int frac) = int ∧
    fractionPart (signedText negative int frac) = frac := by
  have stop : (if 0 < frac.length then 46 :: frac else []) = [] ∨
      ∃ tail, (if 0 < frac.length then 46 :: frac else []) = 46 :: tail := by
    split
    · exact .inr ⟨frac, rfl⟩
    · exact .inl rfl
  obtain ⟨taken, dropped⟩ := takeWhile_integer number.2 stop
  unfold integerPart fractionPart
  rw [body_signedText number, taken, dropped]
  refine ⟨rfl, ?_⟩
  split
  · rfl
  · rename_i none
    rw [List.length_eq_zero_iff.mp (by omega : frac.length = 0)]
    rfl

theorem readDecimal_signedText : readDecimal (signedText negative int frac) =
    (if negative then -1 else 1) * (value (int ++ frac) / 10 ^ frac.length) := by
  obtain ⟨front, back⟩ := parts_signedText number
  unfold readDecimal
  rw [isNegative_signedText number, front, back]

end

theorem truncate_signed (negative : Bool) {m : ℚ} (positive : 0 ≤ m) (d : Nat) :
    truncate d ((if negative then -1 else 1) * m) =
      (if negative then -1 else 1) * (⌊m * 10 ^ d⌋₊ / 10 ^ d) := by
  have nonneg : 0 ≤ m * 10 ^ d := by positivity
  have floor : ((⌊m * 10 ^ d⌋₊ : ℤ) : ℚ) = ⌊m * 10 ^ d⌋ := by
    rw [Int.natCast_floor_eq_floor nonneg]
  rw [Int.cast_natCast] at floor
  unfold truncate
  cases negative with
  | false =>
    simp only [Bool.false_eq_true, if_false, one_mul, if_pos positive, floor]
  | true =>
    simp only [if_true, neg_mul, one_mul]
    by_cases zero : m = 0
    · rw [zero]
      simp
    · have below : ¬0 ≤ -m := by
        have more := lt_of_le_of_ne positive (Ne.symm zero)
        linarith
      rw [if_neg below, Int.ceil_neg, Int.cast_neg, floor]
      ring

theorem pushChars_head {chars : Text} (more : value chars ≠ 0) :
    (pushChars false chars).head? ≠ some 48 := by
  induction chars with
  | nil => exact absurd rfl more
  | cons c chars ih =>
    rw [pushChars]
    split
    · rename_i skipped
      apply ih
      have zero : digit 48 = 0 := rfl
      rw [value_cons, skipped.2.1, zero, Nat.zero_mul, Nat.zero_add] at more
      exact more
    · rename_i kept
      rw [List.head?_cons]
      intro same
      have leading : c = 48 := Option.some.inj same
      have last : chars = [] := by
        by_contra later
        exact kept ⟨rfl, leading, later⟩
      rw [leading, last] at more
      exact more rfl

/-! ## Success -/

/-- The groups that a payload's check lets through. -/
def groupsNat (raw : Text) : List Nat :=
  (groups raw).map Int.toNat

theorem checkDigits_iff {i : Nat} {ds : List Int} {digits : List Nat} :
    checkDigits i ds = .ok digits ↔ (∀ d ∈ ds, 0 ≤ d ∧ d ≤ 9999) ∧ digits = ds.map Int.toNat := by
  induction ds generalizing i digits with
  | nil =>
    rw [checkDigits, Except.ok.injEq]
    exact ⟨fun same => ⟨nofun, same.symm⟩, fun both => both.2.symm⟩
  | cons d ds ih =>
    rw [checkDigits]
    by_cases inside : 0 ≤ d ∧ d ≤ 9999
    · rw [if_pos inside]
      cases later : checkDigits (i + 1) ds with
      | error e =>
        refine iff_of_false nofun ?_
        rintro ⟨all, -⟩
        have ok := (ih (i := i + 1)).mpr ⟨fun k member => all k (List.mem_cons_of_mem d member), rfl⟩
        rw [later] at ok
        cases ok
      | ok rest =>
        obtain ⟨all, same⟩ := ih.mp later
        change Except.ok (d.toNat :: rest) = _ ↔ _
        rw [Except.ok.injEq, same]
        constructor
        · intro whole
          exact ⟨List.forall_mem_cons.mpr ⟨inside, all⟩, whole.symm⟩
        · rintro ⟨-, whole⟩
          exact whole.symm
    · rw [if_neg inside]
      exact iff_of_false nofun fun both => inside (both.1 d List.mem_cons_self)

theorem numericToText_iff {raw text : Text} (finite : FiniteSign raw) :
    numericToText raw = .ok text ↔
      WellFormed raw ∧ text = renderNumeric (weight raw) (signWord raw) (dscale raw)
        (groupsNat raw) := by
  have other : signWord raw ≠ signNan ∧ signWord raw ≠ signPinf ∧ signWord raw ≠ signNinf ∧
      ¬(signWord raw ≠ signPos ∧ signWord raw ≠ signNeg) := by
    obtain ⟨-, positive | negative⟩ := finite
    · rw [positive]
      decide
    · rw [negative]
      decide
  change (if raw.length < 8 then _ else if signWord raw = signNan then _
    else if signWord raw = signPinf then _ else if signWord raw = signNinf then _
    else if signWord raw ≠ signPos ∧ signWord raw ≠ signNeg then _
    else if ndigits raw < 0 then _ else if raw.length ≠ 8 + 2 * (ndigits raw).natAbs then _
    else if maxDscale < dscale raw then _
    else (checkDigits 0 (groups raw)).map
      (renderNumeric (weight raw) (signWord raw) (dscale raw))) = _ ↔ _
  rw [if_neg other.1, if_neg other.2.1, if_neg other.2.2.1, if_neg other.2.2.2]
  by_cases short : raw.length < 8
  · rw [if_pos short]
    refine iff_of_false nofun ?_
    rintro ⟨formed, -⟩
    have length := formed.length
    omega
  rw [if_neg short]
  by_cases count : ndigits raw < 0
  · rw [if_pos count]
    refine iff_of_false nofun ?_
    rintro ⟨formed, -⟩
    have some_ := formed.count
    omega
  rw [if_neg count]
  by_cases length : raw.length ≠ 8 + 2 * (ndigits raw).natAbs
  · rw [if_pos length]
    refine iff_of_false nofun ?_
    rintro ⟨formed, -⟩
    have same := formed.length
    omega
  rw [if_neg length]
  by_cases scale : maxDscale < dscale raw
  · rw [if_pos scale]
    refine iff_of_false nofun ?_
    rintro ⟨formed, -⟩
    have small := formed.scale
    omega
  rw [if_neg scale]
  constructor
  · intro done
    obtain ⟨digits, checked, rendered⟩ := map_ok_exists done
    obtain ⟨all, same⟩ := checkDigits_iff.mp checked
    rw [← rendered, same]
    exact ⟨⟨by omega, by omega, all, by omega⟩, rfl⟩
  · rintro ⟨formed, rfl⟩
    rw [checkDigits_iff.mpr ⟨formed.range, rfl⟩]
    rfl

/-! ## Exactness -/

/-- The rendered text by its parts. -/
theorem renderNumeric_signedText (raw : Text) :
    renderNumeric (weight raw) (signWord raw) (dscale raw) (groupsNat raw) =
      signedText (signWord raw == signNeg) (integerText (groupsNat raw) (weight raw))
        (fractionGroups (groupsNat raw) (weight raw + 1) (dscale raw)) := by
  unfold signedText
  rw [renderNumeric_eq, fractionGroups_length]
  simp only [beq_iff_eq]

section

variable {raw : Text} (formed : WellFormed raw)
include formed

theorem groupsNat_inRange : InRange (groupsNat raw) := by
  intro g member
  obtain ⟨d, inside, rfl⟩ := List.mem_map.mp member
  have range := formed.range d inside
  omega

theorem represented_eq : represented raw =
    (if signWord raw = signNeg then -1 else 1) *
      (tail (groupsNat raw) * 10000 ^ (weight raw + 1)) := by
  have each : ∀ i ∈ Finset.range (groups raw).length,
      ((groups raw).getD i 0 : ℚ) * 10000 ^ (weight raw - i) =
        ((groupsNat raw).getD i 0 : ℚ) * 10000 ^ (weight raw - i) := by
    intro i member
    have inside := Finset.mem_range.mp member
    have range := formed.range _ (List.getElem_mem inside)
    have same : ((groupsNat raw).getD i 0 : Int) = (groups raw).getD i 0 := by
      unfold groupsNat
      rw [List.getD_eq_getElem?_getD, List.getD_eq_getElem?_getD, List.getElem?_map,
        List.getElem?_eq_getElem inside]
      exact Int.toNat_of_nonneg range.1
    rw [← same, Int.cast_natCast]
  have count : (groups raw).length = (groupsNat raw).length := by
    unfold groupsNat
    rw [List.length_map]
  unfold represented
  rw [Finset.sum_congr rfl each, count, sum_eq_tail]

theorem readDecimal_renderNumeric :
    readDecimal (renderNumeric (weight raw) (signWord raw) (dscale raw) (groupsNat raw)) =
      truncate (dscale raw) (represented raw) := by
  have range := groupsNat_inRange formed
  have nonneg : 0 ≤ tail (groupsNat raw) * 10000 ^ (weight raw + 1) := by
    exact mul_nonneg (tail_range range).1 (zpow_nonneg (by norm_num) _)
  have truncated := truncate_signed (signWord raw == signNeg) nonneg (dscale raw)
  simp only [beq_iff_eq] at truncated
  rw [renderNumeric_signedText raw, represented_eq formed, truncated,
    readDecimal_signedText (integerText_number range _), fractionGroups_length,
    value_digits range]
  simp only [beq_iff_eq]

theorem integerText_noLeadingZero (canonical : CanonicalForm raw) :
    integerText (groupsNat raw) (weight raw) = [48] ∨
      (integerText (groupsNat raw) (weight raw)).head? ≠ some 48 := by
  unfold integerText
  split
  · exact .inl rfl
  obtain ⟨d, head, more⟩ | ⟨none, zero⟩ := canonical
  · right
    cases shape : groups raw with
    | nil =>
      rw [shape] at head
      cases head
    | cons g gs =>
      rw [shape] at head
      cases head
      have range := formed.range d (by rw [shape]; exact List.mem_cons_self)
      have first : groupsNat raw = d.toNat :: gs.map Int.toNat := by
        unfold groupsNat
        rw [shape]
        rfl
      have whole : value ((groupChars d.toNat).take 4) = d.toNat / 10 ^ (4 - 4) :=
        value_groupChars (by omega) (by omega) (le_refl 4)
      rw [Nat.sub_self, Nat.pow_zero, Nat.div_one] at whole
      have nonzero : value ((groupChars d.toNat).take 4) ≠ 0 := by omega
      have group : Number (pushGroup d.toNat 4 true) :=
        pushGroup_number (by omega) (by omega) true
      have leading : (pushGroup d.toNat 4 true).head? ≠ some 48 := pushChars_head nonzero
      rw [first]
      change (pushGroup d.toNat 4 true ++ _).head? ≠ some 48
      rw [List.head?_append_of_ne_nil _ group.1]
      exact leading
  · left
    have empty : groupsNat raw = [] := by
      unfold groupsNat
      rw [none]
      rfl
    rw [empty, zero]
    rfl

end

/-- For every finite sign word the rendering succeeds exactly on well-formed payloads, and its text
is the represented value, truncated at the display scale. -/
theorem numericToText_exact (raw : Text) (finite : FiniteSign raw) :
    ((∃ text, numericToText raw = .ok text) ↔ WellFormed raw) ∧
      ∀ text, numericToText raw = .ok text →
        IsDecimal text ∧ readDecimal text = truncate (dscale raw) (represented raw) ∧
          (fractionPart text).length = dscale raw ∧ (CanonicalForm raw → NoLeadingZero text) := by
  constructor
  · constructor
    · rintro ⟨text, done⟩
      exact ((numericToText_iff finite).mp done).1
    · intro formed
      exact ⟨_, (numericToText_iff finite).mpr ⟨formed, rfl⟩⟩
  · intro text done
    have decimal := numericToText_decimal done
    obtain ⟨formed, rfl⟩ := (numericToText_iff finite).mp done
    have number := integerText_number (groupsNat_inRange formed) (weight raw)
    refine ⟨decimal, readDecimal_renderNumeric formed, ?_, ?_⟩
    · rw [renderNumeric_signedText raw, (parts_signedText number).2, fractionGroups_length]
    · intro canonical
      unfold NoLeadingZero
      rw [renderNumeric_signedText raw, (parts_signedText number).1]
      exact integerText_noLeadingZero formed canonical

/-- `12345.6708` with a display scale of two. -/
def sampleNumeric : Text :=
  [0, 3, 0, 1, 0, 0, 0, 2, 0, 1, 9, 41, 26, 52]

theorem numericToText_exact_sample :
    FiniteSign sampleNumeric ∧
      numericToText sampleNumeric = .ok [49, 50, 51, 52, 53, 46, 54, 55] ∧
      readDecimal [49, 50, 51, 52, 53, 46, 54, 55] = truncate 2 (represented sampleNumeric) := by
  have finite : FiniteSign sampleNumeric := by
    unfold FiniteSign
    decide
  have fraction : fractionGroups [1, 2345, 6708] 2 2 = [54, 55] := by
    rw [fractionGroups, fractionGroups]
    rfl
  have rendered : numericToText sampleNumeric = .ok [49, 50, 51, 52, 53, 46, 54, 55] := by
    refine (numericToText_iff finite).mpr ⟨⟨by decide, by decide, by decide, by decide⟩, ?_⟩
    have groups : groupsNat sampleNumeric = [1, 2345, 6708] := by decide
    have weight : weight sampleNumeric = 1 := by decide
    have sign : signWord sampleNumeric = 0 := by decide
    have scale : dscale sampleNumeric = 2 := by decide
    rw [groups, weight, sign, scale, renderNumeric_eq]
    change _ = [] ++ (integerText [1, 2345, 6708] 1 ++ 46 :: fractionGroups [1, 2345, 6708] 2 2)
    rw [fraction]
    decide
  exact ⟨finite, rendered, ((numericToText_exact sampleNumeric finite).2 _ rendered).2.1⟩

end FerroEngine.PgNumeric
