import Mathlib.Data.List.Basic
import Mathlib.Tactic.IntervalCases

set_option autoImplicit false

/-! # Texts with byte offsets

A text is a list of Unicode scalars, and its byte offsets are sums of UTF-8 sizes.
-/

namespace FerroEngine.SourceText

abbrev Text := List Char

/-- Membership tests on texts and pairs of texts rest on these laws. -/
instance textLaws : LawfulBEq Text := inferInstance

instance pairLaws : LawfulBEq (Text × Text) := inferInstance

/-- The UTF-8 length of a text: the byte index just past it. -/
def byteLen (text : Text) : Nat :=
  (text.map Char.utf8Size).sum

@[simp] theorem byteLen_nil : byteLen [] = 0 := rfl

@[simp] theorem byteLen_cons (c : Char) (text : Text) :
    byteLen (c :: text) = c.utf8Size + byteLen text := by
  simp [byteLen]

@[simp] theorem byteLen_append (first second : Text) :
    byteLen (first ++ second) = byteLen first + byteLen second := by
  simp [byteLen]

@[simp] theorem byteLen_reverse (text : Text) : byteLen text.reverse = byteLen text := by
  simp [byteLen, List.sum_reverse]

theorem utf8ByteSize_ofList (text : Text) : (String.ofList text).utf8ByteSize = byteLen text := by
  induction text with
  | nil => rfl
  | cons c text ih =>
    have split : String.ofList (c :: text) = String.singleton c ++ String.ofList text := by
      rw [String.singleton_eq_ofList, ← String.ofList_append, List.singleton_append]
    rw [split, String.utf8ByteSize_append, String.utf8ByteSize_singleton, ih, byteLen_cons]

theorem byteLen_le_four_mul (text : Text) : byteLen text ≤ 4 * text.length := by
  induction text with
  | nil => exact Nat.zero_le _
  | cons c text ih =>
    have size := Char.utf8Size_le_four c
    rw [byteLen_cons, List.length_cons]
    omega

theorem byteLen_replicate {c : Char} (one : c.utf8Size = 1) (n : Nat) :
    byteLen (List.replicate n c) = n := by
  induction n with
  | zero => rfl
  | succ n ih =>
    rw [List.replicate_succ, byteLen_cons, one, ih]
    omega

/-- ASCII filler of the byte length of one character. -/
def filler (c : Char) : Text :=
  List.replicate c.utf8Size ' '

/-- A text with every byte replaced by a space. -/
def blank (text : Text) : Text :=
  text.flatMap filler

@[simp] theorem blank_nil : blank [] = [] := rfl

@[simp] theorem blank_cons (c : Char) (text : Text) :
    blank (c :: text) = filler c ++ blank text := rfl

@[simp] theorem blank_append (first second : Text) :
    blank (first ++ second) = blank first ++ blank second :=
  List.flatMap_append

@[simp] theorem byteLen_blank (text : Text) : byteLen (blank text) = byteLen text := by
  induction text with
  | nil => rfl
  | cons c text ih =>
    rw [blank_cons, byteLen_append, filler, byteLen_replicate (by decide), ih, byteLen_cons]

/-! ## ASCII case -/

theorem isUpper_iff {c : Char} : c.isUpper = true ↔ 65 ≤ c.val ∧ c.val ≤ 90 := by
  change decide (65 ≤ c.val ∧ c.val ≤ 90) = true ↔ _
  rw [decide_eq_true_eq]

theorem isLower_iff {c : Char} : c.isLower = true ↔ 97 ≤ c.val ∧ c.val ≤ 122 := by
  change (decide (97 ≤ c.val) && decide (c.val ≤ 122)) = true ↔ _
  rw [Bool.and_eq_true, decide_eq_true_eq, decide_eq_true_eq]

theorem isAlpha_eq (c : Char) : c.isAlpha = (c.isUpper || c.isLower) := rfl

theorem isUpper_range {c : Char} (upper : c.isUpper = true) : 65 ≤ c.toNat ∧ c.toNat ≤ 90 :=
  isUpper_iff.mp upper

theorem isLower_range {c : Char} (lower : c.isLower = true) : 97 ≤ c.toNat ∧ c.toNat ≤ 122 :=
  isLower_iff.mp lower

theorem isAlpha_range {c : Char} (alpha : c.isAlpha = true) :
    (65 ≤ c.toNat ∧ c.toNat ≤ 90) ∨ (97 ≤ c.toNat ∧ c.toNat ≤ 122) := by
  exact ((Bool.or_eq_true _ _).mp alpha).imp isUpper_range isLower_range

theorem toUpper_cases (c : Char) : c.toUpper = c ∨ (c.isLower = true ∧ c.toUpper.isUpper = true) := by
  by_cases lower : c.isLower = true
  · refine Or.inr ⟨lower, ?_⟩
    have range := isLower_range lower
    rw [← Char.ofNat_toNat c]
    generalize c.toNat = n at range
    obtain ⟨low, high⟩ := range
    interval_cases n
    all_goals decide
  · refine Or.inl ?_
    unfold Char.toUpper
    rw [dif_neg]
    exact fun range => lower (isLower_iff.mpr range)

theorem toLower_cases (c : Char) : c.toLower = c ∨ (c.isUpper = true ∧ c.toLower.isLower = true) := by
  by_cases upper : c.isUpper = true
  · refine Or.inr ⟨upper, ?_⟩
    have range := isUpper_range upper
    rw [← Char.ofNat_toNat c]
    generalize c.toNat = n at range
    obtain ⟨low, high⟩ := range
    interval_cases n
    all_goals decide
  · refine Or.inl ?_
    unfold Char.toLower
    rw [dif_neg]
    exact fun range => upper (isUpper_iff.mpr range)

theorem isAlpha_toUpper (c : Char) : c.toUpper.isAlpha = c.isAlpha := by
  rcases toUpper_cases c with same | ⟨lower, upper⟩
  · rw [same]
  · rw [isAlpha_eq, isAlpha_eq, lower, upper, Bool.true_or, Bool.or_true]

theorem isAlphanum_toLower (c : Char) : c.toLower.isAlphanum = c.isAlphanum := by
  rcases toLower_cases c with same | ⟨upper, lower⟩
  · rw [same]
  · rw [Char.isAlphanum, Char.isAlphanum, isAlpha_eq, isAlpha_eq, lower, upper, Bool.true_or,
      Bool.or_true, Bool.true_or, Bool.true_or]

theorem toLower_eq_underscore (c : Char) : c.toLower = '_' ↔ c = '_' := by
  rcases toLower_cases c with same | ⟨upper, lower⟩
  · rw [same]
  · constructor
    · intro same
      rw [same] at lower
      exact absurd lower (by decide)
    · rintro rfl
      rfl

end FerroEngine.SourceText
