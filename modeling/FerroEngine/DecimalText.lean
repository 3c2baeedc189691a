import Mathlib.Data.List.Induction
import Mathlib.Tactic.Ring

set_option autoImplicit false

/-! # Decimal texts

Numbers as strings of ASCII digits, most significant first.
-/

namespace FerroEngine.DecimalText

abbrev Text := List UInt8

def isDigit (b : UInt8) : Bool :=
  48 ≤ b.toNat && b.toNat ≤ 57

/-- The value of one character; one that is no digit counts as zero. -/
def digit (b : UInt8) : Nat :=
  if isDigit b then b.toNat - 48 else 0

def digitByte (d : Nat) : UInt8 :=
  UInt8.ofNat (48 + d)

def value (s : Text) : Nat :=
  s.foldl (fun n b => 10 * n + digit b) 0

/-- The text of a number, without leading zeros. -/
def decimal (n : Nat) : Text :=
  if n < 10 then [digitByte n] else decimal (n / 10) ++ [digitByte (n % 10)]

/-- The last `width` digits. -/
def padded : Nat → Nat → Text
  | 0, _ => []
  | width + 1, n => padded width (n / 10) ++ [digitByte (n % 10)]

/-- `{n:0width}`: padded with zeros to the width, or longer. -/
def format (width n : Nat) : Text :=
  if n < 10 ^ width then padded width n else decimal n

def Digits (s : Text) : Prop :=
  ∀ b ∈ s, isDigit b = true

def trimZeros (s : Text) : Text :=
  s.dropWhile (· == 48)

/-! ## One digit -/

theorem digit_lt (b : UInt8) : digit b < 10 := by
  unfold digit isDigit
  split
  · rename_i range
    simp only [Bool.and_eq_true, decide_eq_true_eq] at range
    omega
  · omega

theorem digitByte_toNat {d : Nat} (small : d < 10) : (digitByte d).toNat = 48 + d := by
  unfold digitByte
  rw [UInt8.toNat_ofNat']
  omega

theorem isDigit_digitByte {d : Nat} (small : d < 10) : isDigit (digitByte d) = true := by
  have number := digitByte_toNat small
  simp only [isDigit, number, Bool.and_eq_true, decide_eq_true_eq]
  omega

theorem digit_digitByte {d : Nat} (small : d < 10) : digit (digitByte d) = d := by
  rw [digit, if_pos (isDigit_digitByte small), digitByte_toNat small]
  omega

theorem digitByte_digit {b : UInt8} (isOne : isDigit b = true) : digitByte (digit b) = b := by
  have range := isOne
  simp only [isDigit, Bool.and_eq_true, decide_eq_true_eq] at range
  apply UInt8.toNat_inj.mp
  rw [digitByte_toNat (digit_lt b), digit, if_pos isOne]
  omega

/-! ## Values -/

@[simp] theorem value_nil : value [] = 0 := rfl

theorem value_concat (s : Text) (b : UInt8) : value (s ++ [b]) = 10 * value s + digit b := by
  rw [value, List.foldl_append]
  rfl

theorem value_append (s t : Text) : value (s ++ t) = value s * 10 ^ t.length + value t := by
  induction t using List.reverseRecOn with
  | nil => simp
  | append_singleton t b ih =>
    rw [← List.append_assoc, value_concat, ih, value_concat, List.length_append,
      List.length_singleton, Nat.pow_succ]
    ring

theorem value_cons (b : UInt8) (s : Text) : value (b :: s) = digit b * 10 ^ s.length + value s := by
  have parts := value_append [b] s
  have one : value [b] = digit b := by
    rw [← List.nil_append [b], value_concat, value_nil]
    omega
  rw [one] at parts
  exact parts

theorem value_lt (s : Text) : value s < 10 ^ s.length := by
  induction s using List.reverseRecOn with
  | nil => simp
  | append_singleton s b ih =>
    have small := digit_lt b
    rw [value_concat, List.length_append, List.length_singleton, Nat.pow_succ]
    omega

theorem value_trimZeros (s : Text) : value (trimZeros s) = value s := by
  induction s with
  | nil => rfl
  | cons b s ih =>
    unfold trimZeros at ih ⊢
    rw [List.dropWhile_cons]
    split
    · rename_i zero
      have none : digit b = 0 := by
        rw [eq_of_beq zero]
        rfl
      rw [ih, value_cons, none]
      omega
    · rfl

theorem trimZeros_subset {s : Text} (digits : Digits s) : Digits (trimZeros s) := by
  intro b member
  exact digits b (List.dropWhile_sublist _ |>.mem member)

/-- What is left after the zeros starts with none. -/
theorem trimZeros_head {s rest : Text} {b : UInt8} (front : trimZeros s = b :: rest) :
    b ≠ 48 := by
  have head := List.head?_dropWhile_not (· == 48) s
  rw [trimZeros] at front
  rw [front] at head
  simp only [List.head?_cons] at head
  intro zero
  rw [zero] at head
  simp at head

/-- A number with a leading digit other than zero has as many digits as its size needs. -/
theorem le_value {b : UInt8} {s : Text} (isOne : isDigit b = true) (leading : b ≠ 48) :
    10 ^ s.length ≤ value (b :: s) := by
  have positive : 1 ≤ digit b := by
    by_contra low
    have zero : digit b = 0 := by omega
    have same := digitByte_digit isOne
    rw [zero] at same
    exact leading same.symm
  rw [value_cons]
  calc 10 ^ s.length = 1 * 10 ^ s.length := (Nat.one_mul _).symm
    _ ≤ digit b * 10 ^ s.length := Nat.mul_le_mul_right _ positive
    _ ≤ digit b * 10 ^ s.length + value s := Nat.le_add_right _ _

/-! ## Canonical texts -/

/-- Digits without a leading zero, or a zero alone. -/
structure Canonical (s : Text) : Prop where
  digits : Digits s
  nonempty : s ≠ []
  leading : s.head? = some 48 → s = [48]

theorem canonical_concat {s : Text} {b : UInt8} (canonical : Canonical (s ++ [b]))
    (more : s ≠ []) : Canonical s ∧ s.head? ≠ some 48 := by
  have head : s.head? ≠ some 48 := by
    intro zero
    have whole : (s ++ [b]).head? = some 48 := by
      rw [List.head?_append, zero]
      rfl
    have single := congrArg List.length (canonical.leading whole)
    rw [List.length_append, List.length_singleton, List.length_singleton] at single
    exact more (List.length_eq_zero_iff.mp (by omega))
  refine ⟨⟨?_, more, ?_⟩, head⟩
  · intro c member
    exact canonical.digits c (List.mem_append_left _ member)
  · intro zero
    exact absurd zero head

theorem value_pos {s : Text} (canonical : Canonical s) (head : s.head? ≠ some 48) :
    0 < value s := by
  cases s with
  | nil => exact absurd rfl canonical.nonempty
  | cons b s =>
    have leading : b ≠ 48 := by
      rintro rfl
      exact head rfl
    have large := le_value (s := s) (canonical.digits b List.mem_cons_self) leading
    exact Nat.lt_of_lt_of_le (Nat.pow_pos (by omega)) large

/-- A canonical text is the text of its value. -/
theorem decimal_value {s : Text} (canonical : Canonical s) : decimal (value s) = s := by
  induction s using List.reverseRecOn with
  | nil => exact absurd rfl canonical.nonempty
  | append_singleton s b ih =>
    have small := digit_lt b
    have isOne : isDigit b = true :=
      canonical.digits b (List.mem_append_right _ (List.mem_singleton_self b))
    rw [value_concat, decimal]
    by_cases more : s = []
    · subst more
      rw [value_nil, if_pos (by omega)]
      have same : 10 * 0 + digit b = digit b := by omega
      rw [same, digitByte_digit isOne, List.nil_append]
    · obtain ⟨front, head⟩ := canonical_concat canonical more
      have positive := value_pos front head
      have quotient : (10 * value s + digit b) / 10 = value s := by omega
      have remainder : (10 * value s + digit b) % 10 = digit b := by omega
      rw [if_neg (by omega), quotient, remainder, ih front, digitByte_digit isOne]

theorem value_decimal (n : Nat) : value (decimal n) = n := by
  induction n using Nat.strongRecOn with
  | ind n ih =>
    rw [decimal]
    split
    · rename_i small
      rw [← List.nil_append [digitByte n], value_concat, digit_digitByte small, value_nil]
      omega
    · rw [value_concat, ih (n / 10) (by omega), digit_digitByte (by omega)]
      omega

theorem digits_decimal (n : Nat) : Digits (decimal n) ∧ decimal n ≠ [] := by
  induction n using Nat.strongRecOn with
  | ind n ih =>
    rw [decimal]
    split
    · rename_i small
      refine ⟨?_, List.cons_ne_nil _ _⟩
      intro b member
      rw [List.mem_singleton.mp member]
      exact isDigit_digitByte small
    · refine ⟨?_, List.append_ne_nil_of_right_ne_nil _ (List.cons_ne_nil _ _)⟩
      intro b member
      obtain front | last := List.mem_append.mp member
      · exact (ih (n / 10) (by omega)).1 b front
      · rw [List.mem_singleton.mp last]
        exact isDigit_digitByte (by omega)

theorem decimal_length {n k : Nat} (small : n < 10 ^ (k + 1)) : (decimal n).length ≤ k + 1 := by
  induction k generalizing n with
  | zero =>
    rw [decimal, if_pos (by omega)]
    exact Nat.le_refl _
  | succ k ih =>
    rw [decimal]
    split
    · exact Nat.succ_le_succ (Nat.zero_le _)
    · have shorter := @ih (n / 10) (by rw [Nat.pow_succ] at small; omega)
      rw [List.length_append, List.length_singleton]
      omega

theorem canonical_decimal (n : Nat) : Canonical (decimal n) := by
  obtain ⟨digits, some_⟩ := digits_decimal n
  refine ⟨digits, some_, fun zero => ?_⟩
  induction n using Nat.strongRecOn with
  | ind n ih =>
    rw [decimal] at zero ⊢
    split at zero
    · rename_i small
      rw [if_pos small]
      exact congrArg (fun b => [b]) (Option.some.inj zero)
    · rename_i large
      obtain ⟨front, more⟩ := digits_decimal (n / 10)
      have first : (decimal (n / 10)).head? = some 48 := by
        cases shape : decimal (n / 10) with
        | nil => exact absurd shape more
        | cons c rest =>
          rw [shape] at zero
          exact zero
      have number := value_decimal (n / 10)
      rw [ih (n / 10) (by omega) front more first] at number
      have none : value [48] = 0 := rfl
      omega

/-- Trimming the zeros makes any digits canonical; `"0"` stands for none left. -/
def orZero (s : Text) : Text :=
  if trimZeros s = [] ∨ trimZeros s = [48] then [48] else trimZeros s

theorem orZero_eq {s : Text} (digits : Digits s) : orZero s = decimal (value s) := by
  have kept := value_trimZeros s
  have zero : decimal 0 = [48] := by
    rw [decimal, if_pos (by omega)]
    rfl
  unfold orZero
  cases left : trimZeros s with
  | nil =>
    rw [left, value_nil] at kept
    rw [← kept, zero, if_pos (.inl rfl)]
  | cons b rest =>
    have head := trimZeros_head left
    have canonical : Canonical (b :: rest) := by
      refine ⟨left ▸ trimZeros_subset digits, List.cons_ne_nil b rest, ?_⟩
      intro same
      exact absurd (Option.some.inj same) head
    rw [if_neg, ← kept, left, decimal_value canonical]
    rintro (none | alone)
    · cases none
    · cases alone
      exact head rfl

/-! ## Order -/

/-- `strcmp(s, t) <= 0`. -/
def strcmpLe : Text → Text → Bool
  | [], _ => true
  | _ :: _, [] => false
  | a :: s, b :: t => a < b || (a == b && strcmpLe s t)

theorem digit_lt_digit {a b : UInt8} (isA : isDigit a = true) (isB : isDigit b = true) :
    a < b ↔ digit a < digit b := by
  have rangeA := isA
  have rangeB := isB
  simp only [isDigit, Bool.and_eq_true, decide_eq_true_eq] at rangeA rangeB
  rw [UInt8.lt_iff_toNat_lt, digit, digit, if_pos isA, if_pos isB]
  omega

/-- Digits of one length compare as their values do. -/
theorem strcmpLe_iff {s t : Text} (digitsS : Digits s) (digitsT : Digits t)
    (same : s.length = t.length) : strcmpLe s t = true ↔ value s ≤ value t := by
  induction s generalizing t with
  | nil =>
    cases t with
    | nil => simp [strcmpLe]
    | cons b t => cases same
  | cons a s ih =>
    cases t with
    | nil => cases same
    | cons b t =>
      have lengths : s.length = t.length := Nat.succ.inj same
      have isA := digitsS a List.mem_cons_self
      have isB := digitsT b List.mem_cons_self
      have tail := ih (fun c member => digitsS c (List.mem_cons_of_mem a member))
        (fun c member => digitsT c (List.mem_cons_of_mem b member)) lengths
      have boundS := value_lt s
      have boundT := value_lt t
      have order := digit_lt_digit isA isB
      rw [strcmpLe, Bool.or_eq_true, Bool.and_eq_true, decide_eq_true_eq, beq_iff_eq, order, tail,
        value_cons, value_cons, lengths]
      rw [lengths] at boundS
      rcases Nat.lt_trichotomy (digit a) (digit b) with less | equal | more
      · have gap : (digit a + 1) * 10 ^ t.length ≤ digit b * 10 ^ t.length :=
          Nat.mul_le_mul_right _ less
        rw [Nat.add_mul, Nat.one_mul] at gap
        exact ⟨fun _ => by omega, fun _ => .inl less⟩
      · have bytes : a = b := by
          rw [← digitByte_digit isA, equal, digitByte_digit isB]
        rw [equal]
        constructor
        · rintro (less | ⟨-, tail⟩)
          · exact absurd less (Nat.lt_irrefl _)
          · omega
        · intro whole
          exact .inr ⟨bytes, by omega⟩
      · have gap : (digit b + 1) * 10 ^ t.length ≤ digit a * 10 ^ t.length :=
          Nat.mul_le_mul_right _ more
        rw [Nat.add_mul, Nat.one_mul] at gap
        constructor
        · rintro (less | ⟨equal, -⟩)
          · omega
          · rw [equal] at more
            exact absurd more (Nat.lt_irrefl _)
        · intro whole
          omega

end FerroEngine.DecimalText
