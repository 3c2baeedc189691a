import FerroEngine.CanonicalText

set_option autoImplicit false

/-! # The canonical forms

The protocol's grammar for each tag, and what the client's regular expressions match.
-/

namespace FerroEngine.CanonicalForms

open DecimalText CivilCalendar CanonicalText

/-! ## Digits of a fixed width -/

theorem padded_length (width n : Nat) : (padded width n).length = width := by
  induction width generalizing n with
  | zero => rfl
  | succ width ih => rw [padded, List.length_append, ih, List.length_singleton]

theorem digits_padded (width n : Nat) : Digits (padded width n) := by
  induction width generalizing n with
  | zero => exact fun _ member => absurd member List.not_mem_nil
  | succ width ih =>
    intro b member
    rw [padded, List.mem_append, List.mem_singleton] at member
    obtain front | rfl := member
    · exact ih _ b front
    · exact isDigit_digitByte (Nat.mod_lt n (by omega))

theorem value_padded {width n : Nat} (small : n < 10 ^ width) : value (padded width n) = n := by
  induction width generalizing n with
  | zero =>
    rw [Nat.pow_zero, Nat.lt_one_iff] at small
    rw [small]
    rfl
  | succ width ih =>
    rw [Nat.pow_succ] at small
    rw [padded, value_concat, ih (by omega), digit_digitByte (Nat.mod_lt n (by omega))]
    omega

theorem padded_value {s : Text} (all : Digits s) : padded s.length (value s) = s := by
  induction s using List.reverseRecOn with
  | nil => rfl
  | append_singleton s b ih =>
    have front : Digits s := fun c member => all c (List.mem_append_left _ member)
    have isOne : isDigit b = true := all b (List.mem_append_right _ (List.mem_singleton_self b))
    have small := digit_lt b
    have high : (10 * value s + digit b) / 10 = value s := by omega
    have low : (10 * value s + digit b) % 10 = digit b := by omega
    rw [List.length_append, List.length_singleton, padded, value_concat, high, low, ih front,
      digitByte_digit isOne]

theorem format_small {width n : Nat} (small : n < 10 ^ width) : format width n = padded width n :=
  if_pos small

/-! ## The pieces -/

theorem digits_iff {n : Nat} {s d rest : Text} :
    CanonicalText.digits n s = some (d, rest) ↔
      ∃ k, k < 10 ^ n ∧ d = padded n k ∧ s = padded n k ++ rest := by
  unfold CanonicalText.digits
  constructor
  · intro found
    split at found
    · rename_i both
      cases found
      have all : Digits (s.take n) := List.all_eq_true.mp both.2
      have length : (s.take n).length = n := by
        rw [List.length_take]
        omega
      have small := value_lt (s.take n)
      have back := padded_value all
      rw [length] at small back
      refine ⟨value (s.take n), small, back.symm, ?_⟩
      rw [back, List.take_append_drop]
    · cases found
  · rintro ⟨k, -, rfl, rfl⟩
    have length := padded_length n k
    have taken : (padded n k ++ rest).take n = padded n k := by
      rw [List.take_append_of_le_length (by omega), List.take_of_length_le (by omega)]
    have dropped : (padded n k ++ rest).drop n = rest := by
      rw [List.drop_append_of_le_length (by omega), List.drop_of_length_le (by omega),
        List.nil_append]
    rw [taken, dropped, if_pos]
    refine ⟨?_, List.all_eq_true.mpr (digits_padded n k)⟩
    rw [List.length_append]
    omega

theorem literal_iff {b : UInt8} {s rest : Text} : literal b s = some rest ↔ s = b :: rest := by
  cases s with
  | nil => exact iff_of_false nofun nofun
  | cons c s =>
    rw [literal, List.cons.injEq]
    by_cases same : c = b
    · rw [if_pos same, Option.some.injEq]
      exact ⟨fun rest => ⟨same, rest⟩, fun both => both.2⟩
    · rw [if_neg same]
      exact iff_of_false nofun fun both => same both.1

theorem takeWhile_digits {s rest : Text} (all : Digits s)
    (stop : ∀ b ∈ rest.head?, isDigit b = false) :
    (s ++ rest).takeWhile isDigit = s ∧ (s ++ rest).dropWhile isDigit = rest := by
  induction s with
  | nil =>
    cases rest with
    | nil => exact ⟨rfl, rfl⟩
    | cons b rest =>
      have no := stop b rfl
      simp [no]
  | cons b s ih =>
    have isOne := all b List.mem_cons_self
    have later := ih fun c member => all c (List.mem_cons_of_mem b member)
    simp [isOne, later]

/-- A text that ends in no newline. -/
def NoNewline (s : Text) : Prop :=
  s.getLast? ≠ some 10

theorem dollar_iff {s : Text} : dollar s = true ↔ s = [] ∨ s = [10] := by
  unfold dollar
  rw [Bool.or_eq_true, decide_eq_true_eq, decide_eq_true_eq]

/-! ## Dates -/

/-- `YYYY-MM-DD`. -/
def dateText (y mo d : Nat) : Text :=
  padded 4 y ++ 45 :: (padded 2 mo ++ 45 :: padded 2 d)

/-- `:MM:SS`. -/
def minuteText (mi s : Nat) : Text :=
  58 :: (padded 2 mi ++ 58 :: padded 2 s)

/-- `HH:MM:SS`. -/
def clockText (h mi s : Nat) : Text :=
  padded 2 h ++ minuteText mi s

theorem dateGroups_iff {s rest : Text} {y mo d : Nat} :
    dateGroups s = some ((y, mo, d), rest) ↔
      (y < 10 ^ 4 ∧ mo < 10 ^ 2 ∧ d < 10 ^ 2) ∧ s = dateText y mo d ++ rest := by
  unfold dateGroups dateText
  simp only [Option.bind_eq_bind, Option.bind_eq_some_iff, Prod.exists, digits_iff, literal_iff]
  constructor
  · rintro ⟨_, s₁, ⟨y', ySmall, rfl, rfl⟩, s₂, rfl, _, s₃, ⟨mo', moSmall, rfl, rfl⟩, s₄, rfl, _,
      s₅, ⟨d', dSmall, rfl, rfl⟩, same⟩
    simp only [pure, Option.some.injEq, Prod.mk.injEq, value_padded ySmall, value_padded moSmall,
      value_padded dSmall] at same
    obtain ⟨⟨rfl, rfl, rfl⟩, rfl⟩ := same
    refine ⟨⟨ySmall, moSmall, dSmall⟩, ?_⟩
    simp only [List.append_assoc, List.cons_append]
  · rintro ⟨⟨ySmall, moSmall, dSmall⟩, rfl⟩
    refine ⟨_, _, ⟨y, ySmall, rfl, List.append_assoc _ _ _⟩, _, rfl, _, _,
      ⟨mo, moSmall, rfl, List.append_assoc _ _ _⟩, _, rfl, _, _, ⟨d, dSmall, rfl, rfl⟩, ?_⟩
    rw [value_padded ySmall, value_padded moSmall, value_padded dSmall]
    rfl

theorem minuteGroups_iff {s rest : Text} {mi sec : Nat} :
    minuteGroups s = some ((mi, sec), rest) ↔
      (mi < 10 ^ 2 ∧ sec < 10 ^ 2) ∧ s = minuteText mi sec ++ rest := by
  unfold minuteGroups minuteText
  simp only [Option.bind_eq_bind, Option.bind_eq_some_iff, Prod.exists, digits_iff, literal_iff]
  constructor
  · rintro ⟨s₁, rfl, _, s₂, ⟨mi', miSmall, rfl, rfl⟩, s₃, rfl, _, s₄, ⟨sec', secSmall, rfl, rfl⟩,
      same⟩
    simp only [pure, Option.some.injEq, Prod.mk.injEq, value_padded miSmall,
      value_padded secSmall] at same
    obtain ⟨⟨rfl, rfl⟩, rfl⟩ := same
    refine ⟨⟨miSmall, secSmall⟩, ?_⟩
    simp only [List.append_assoc, List.cons_append]
  · rintro ⟨⟨miSmall, secSmall⟩, rfl⟩
    refine ⟨_, rfl, _, _, ⟨mi, miSmall, rfl, List.append_assoc _ _ _⟩, _, rfl, _, _,
      ⟨sec, secSmall, rfl, rfl⟩, ?_⟩
    rw [value_padded miSmall, value_padded secSmall]
    rfl

theorem clockGroups_iff {s rest : Text} {h mi sec : Nat} :
    clockGroups s = some ((h, mi, sec), rest) ↔
      (h < 10 ^ 2 ∧ mi < 10 ^ 2 ∧ sec < 10 ^ 2) ∧ s = clockText h mi sec ++ rest := by
  unfold clockGroups clockText
  simp only [Option.bind_eq_bind, Option.bind_eq_some_iff, Prod.exists, digits_iff,
    minuteGroups_iff]
  constructor
  · rintro ⟨_, s₁, ⟨h', hSmall, rfl, rfl⟩, mi', sec', s₂, ⟨small, rfl⟩, same⟩
    simp only [pure, Option.some.injEq, Prod.mk.injEq, value_padded hSmall] at same
    obtain ⟨⟨rfl, rfl, rfl⟩, rfl⟩ := same
    exact ⟨⟨hSmall, small⟩, (List.append_assoc _ _ _).symm⟩
  · rintro ⟨⟨hSmall, small⟩, rfl⟩
    refine ⟨_, _, ⟨h, hSmall, rfl, List.append_assoc _ _ _⟩, mi, sec, rest, ⟨small, rfl⟩, ?_⟩
    rw [value_padded hSmall]
    rfl

/-- Nothing, or a point and six digits. -/
def fractionText : Option Nat → Text
  | none => []
  | some f => 46 :: padded 6 f

theorem fraction_iff {ending : Text → Bool} {s : Text} :
    fraction ending s = true ↔
      ∃ (f : Option Nat) (rest : Text), (∀ k ∈ f, k < 10 ^ 6) ∧ s = fractionText f ++ rest ∧
        ending rest = true := by
  unfold fraction
  rw [Bool.or_eq_true, Option.any_eq_true]
  simp only [Option.bind_eq_some_iff, Prod.exists, literal_iff, digits_iff]
  constructor
  · rintro (⟨_, rest, ⟨s₁, rfl, k, small, rfl, rfl⟩, ends⟩ | ends)
    · refine ⟨some k, rest, ?_, rfl, ends⟩
      rintro _ ⟨⟩
      exact small
    · exact ⟨none, s, nofun, rfl, ends⟩
  · rintro ⟨f, rest, small, rfl, ends⟩
    cases f with
    | none => exact .inr ends
    | some k => exact .inl ⟨_, rest, ⟨_, rfl, k, small k rfl, rfl, rfl⟩, ends⟩

/-! ## The grammar -/

/-- A date that exists or has a zero in it. -/
structure Day where
  y : Nat
  mo : Nat
  d : Nat
  year : y ≤ 9999
  month : mo ≤ 12
  day : d ≤ 31
  real : hasZero (y, mo, d) = true ∨ Exists y mo d

def Day.text (date : Day) : Text :=
  dateText date.y date.mo date.d

def Day.isSentinel (date : Day) : Bool :=
  hasZero (date.y, date.mo, date.d)

/-- A time of day, with its microseconds if they are written. -/
structure Clock where
  h : Nat
  mi : Nat
  s : Nat
  micros : Option Nat
  hour : h ≤ 23
  minute : mi ≤ 59
  second : s ≤ 59
  sixDigits : ∀ k ∈ micros, k < 10 ^ 6

def Clock.text (clock : Clock) : Text :=
  clockText clock.h clock.mi clock.s ++ fractionText clock.micros

/-- `YYYY-MM-DD` or an infinity, and whether it is a sentinel. -/
inductive IsDate : Text → Bool → Prop
  | infinity {s : Text} : s ∈ infinities → IsDate s true
  | day (date : Day) : IsDate date.text date.isSentinel

/-- A date and a time with a separator and an end, an infinity, or another literal. -/
inductive IsStamp (separator : UInt8) (ending : Text) (literals : List Text) : Text → Bool → Prop
  | infinity {s : Text} : s ∈ infinities → IsStamp separator ending literals s true
  | literal {s : Text} : s ∈ literals → IsStamp separator ending literals s true
  | instant (date : Day) (clock : Clock) :
      IsStamp separator ending literals (date.text ++ separator :: (clock.text ++ ending))
        date.isSentinel

/-- `YYYY-MM-DD HH:MM:SS[.ffffff]`. -/
def IsTimestamp : Text → Bool → Prop :=
  IsStamp 32 [] []

/-- `YYYY-MM-DDTHH:MM:SS[.ffffff]Z`, or the zero datetime. -/
def IsTimestamptz : Text → Bool → Prop :=
  IsStamp 84 [90] [zeroDatetime]

/-- `[-]HH:MM:SS[.ffffff]`, with at least two digits of hours. -/
structure IsTime (s : Text) : Prop where
  parts : ∃ (sign hours : Text) (mi sec : Nat) (micros : Option Nat),
    (sign = [] ∨ sign = [45]) ∧ Digits hours ∧ 2 ≤ hours.length ∧ mi ≤ 59 ∧ sec ≤ 59 ∧
      (∀ k ∈ micros, k < 10 ^ 6) ∧
      s = sign ++ (hours ++ (minuteText mi sec ++ fractionText micros))

/-- Digits, at least one. -/
def Number (s : Text) : Prop :=
  s ≠ [] ∧ Digits s

/-- `[+-]digits[.digits]`, or a value that is not finite. -/
inductive IsDecimal : Text → Prop
  | special {s : Text} : s ∈ decimalSpecials → IsDecimal s
  | whole {sign int : Text} : sign = [] ∨ sign = [43] ∨ sign = [45] → Number int →
      IsDecimal (sign ++ int)
  | point {sign int frac : Text} : sign = [] ∨ sign = [43] ∨ sign = [45] → Number int →
      Number frac → IsDecimal (sign ++ (int ++ 46 :: frac))

end FerroEngine.CanonicalForms
