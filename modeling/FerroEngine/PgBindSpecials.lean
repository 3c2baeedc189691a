import FerroEngine.LeadingNoise
import FerroEngine.PgBindLockstep

set_option autoImplicit false

/-! # Special literals in the slots of PostgreSQL

The texts that the pre-flight accepts for a temporal or a numeric slot, against what the server's
input functions make of them.
-/

namespace FerroEngine.PgBindSpecials

open SourceText SqlMessages PinClassifier PgBind
open PostgresLexicalRules (isSpace)
open LeadingNoise (isWhitespace_of_isSpace)

/-! ## The server -/

inductive Reading where
  | rejected
  | literal
  | special
  deriving DecidableEq, Repr

/-- The words that a datetime input function takes as a field. -/
def specialWords : List String :=
  ["now", "today", "tomorrow", "yesterday", "epoch", "infinity", "allballs"]

def lower (text : Text) : Text :=
  text.map Char.toLower

def isSpecialWord (field : Text) : Bool :=
  specialWords.any fun word => lower field == word.toList

/-- PostgreSQL's datetime input: how it splits a text into fields, and the fields that it reads for
a slot. -/
structure DatetimeInput where
  fields : Text → List Text
  allows : Builtin → List Text → Bool

def DatetimeInput.read (input : DatetimeInput) (slot : Builtin) (text : Text) : Reading :=
  if input.allows slot (input.fields text) then
    if (input.fields text).any isSpecialWord then .special else .literal
  else .rejected

/-- The words that the numeric input function takes, in any case and in white space. -/
def numericWords : List String :=
  ["nan", "infinity", "+infinity", "-infinity", "inf", "+inf", "-inf"]

def strip (p : Char → Bool) (text : Text) : Text :=
  (text.dropWhile p).rdropWhile p

/-- The numeric input function, with the other texts that it accepts. -/
def numericRead (accepts : Text → Bool) (text : Text) : Reading :=
  if numericWords.any fun word => lower (strip isSpace text) == word.toList then .special
  else if accepts text then .literal
  else .rejected

/-! ## Bare words -/

/-- One of the words, in any case, with white space around it. -/
def Bare (words : List String) (text : Text) : Prop :=
  ∃ before core after, text = before ++ (core ++ after) ∧
    (∀ c ∈ before, isWhitespace c = true) ∧ (∀ c ∈ after, isWhitespace c = true) ∧
    ∃ word ∈ words, lower core = word.toList

/-- Neither end of a word is white space. -/
def Visible (word : Text) : Prop :=
  (∃ c, word.head? = some c ∧ isWhitespace c = false) ∧
    ∃ c, word.getLast? = some c ∧ isWhitespace c = false

theorem strip_split (p : Char → Bool) (text : Text) :
    ∃ before after, text = before ++ (strip p text ++ after) ∧ (∀ c ∈ before, p c = true) ∧
      ∀ c ∈ after, p c = true := by
  refine ⟨text.takeWhile p, ((text.dropWhile p).reverse.takeWhile p).reverse, ?_, ?_, ?_⟩
  · rw [strip, List.rdropWhile, ← List.reverse_append, List.takeWhile_append_dropWhile,
      List.reverse_reverse, List.takeWhile_append_dropWhile]
  · exact fun c member => List.mem_takeWhile_imp member
  · intro c member
    exact List.mem_takeWhile_imp (List.mem_reverse.mp member)

theorem dropWhile_pad {p : Char → Bool} {before rest : Text} (blank : ∀ c ∈ before, p c = true)
    (head : ∃ c, rest.head? = some c ∧ p c = false) : (before ++ rest).dropWhile p = rest := by
  rw [List.dropWhile_append_of_pos blank]
  obtain ⟨c, first, visible⟩ := head
  cases rest with
  | nil => cases first
  | cons b rest =>
    cases first
    rw [List.dropWhile_cons, visible]
    rfl

theorem strip_pad {p : Char → Bool} {before core after : Text} (blank : ∀ c ∈ before, p c = true)
    (blank' : ∀ c ∈ after, p c = true) (head : ∃ c, core.head? = some c ∧ p c = false)
    (last : ∃ c, core.getLast? = some c ∧ p c = false) :
    strip p (before ++ (core ++ after)) = core := by
  have front : ∃ c, (core ++ after).head? = some c ∧ p c = false := by
    obtain ⟨c, first, visible⟩ := head
    exact ⟨c, by rw [List.head?_append, first]; rfl, visible⟩
  have back : ∃ c, core.reverse.head? = some c ∧ p c = false := by
    rw [List.head?_reverse]
    exact last
  have blank'' : ∀ c ∈ after.reverse, p c = true := fun c member =>
    blank' c (List.mem_reverse.mp member)
  rw [strip, dropWhile_pad blank front, List.rdropWhile, List.reverse_append,
    dropWhile_pad blank'' back, List.reverse_reverse]

theorem toLower_white {c : Char} (white : isWhitespace c = true) : c.toLower = c := by
  have range : ¬(65 ≤ c.toNat ∧ c.toNat ≤ 90) := by
    simp only [isWhitespace, Bool.or_eq_true, Bool.and_eq_true, decide_eq_true_eq,
      beq_iff_eq] at white
    omega
  unfold Char.toLower
  split
  · rename_i upper
    exact absurd upper range
  · rfl

theorem visible_lower {core : Text} (visible : Visible (lower core)) : Visible core := by
  have back {c : Char} (dark : isWhitespace c.toLower = false) : isWhitespace c = false := by
    by_contra white
    rw [Bool.not_eq_false] at white
    rw [toLower_white white, white] at dark
    cases dark
  obtain ⟨⟨c, first, dark⟩, ⟨d, last, dark'⟩⟩ := visible
  rw [lower, List.head?_map, Option.map_eq_some_iff] at first
  rw [lower, List.getLast?_map, Option.map_eq_some_iff] at last
  obtain ⟨c', first, rfl⟩ := first
  obtain ⟨d', last, rfl⟩ := last
  exact ⟨⟨c', first, back dark⟩, ⟨d', last, back dark'⟩⟩

/-- The trimmed text is one of the words. -/
theorem trim_bare {words : List String} (visible : ∀ word ∈ words, Visible word.toList)
    (text : Text) : (∃ word ∈ words, lower (trim text) = word.toList) ↔ Bare words text := by
  constructor
  · intro found
    obtain ⟨before, after, split, blank, blank'⟩ := strip_split isWhitespace text
    exact ⟨before, trim text, after, split, blank, blank', found⟩
  · rintro ⟨before, core, after, rfl, blank, blank', word, member, same⟩
    have shown : Visible core := visible_lower (by rw [same]; exact visible word member)
    have stripped : trim (before ++ (core ++ after)) = core := strip_pad blank blank' shown.1 shown.2
    exact ⟨word, member, by rw [stripped, same]⟩

/-! ## The gate -/

/-- The words of the gate for dates and times. -/
def gateDatetime : List String :=
  datetimeSpecials ++ ["allballs"]

/-- The words of the gate for numbers. -/
def gateNumeric : List String :=
  numericSpecials ++ ["-inf", "+inf"]

theorem eqIgnoreAsciiCase_iff (t k : Text) :
    eqIgnoreAsciiCase t k = true ↔ lower t = lower k := by
  rw [eqIgnoreAsciiCase, beq_iff_eq]
  rfl

theorem gateDatetime_words : ∀ word ∈ gateDatetime, lower word.toList = word.toList ∧
    Visible word.toList := by
  intro word member
  simp only [gateDatetime, datetimeSpecials, List.cons_append, List.nil_append, List.mem_cons,
    List.not_mem_nil, or_false] at member
  rcases member with rfl | rfl | rfl | rfl | rfl | rfl | rfl | rfl | rfl
  all_goals exact ⟨rfl, ⟨_, rfl, rfl⟩, ⟨_, rfl, rfl⟩⟩

theorem gateNumeric_words : ∀ word ∈ gateNumeric, lower word.toList = word.toList ∧
    Visible word.toList := by
  intro word member
  simp only [gateNumeric, numericSpecials, List.cons_append, List.nil_append, List.mem_cons,
    List.not_mem_nil, or_false] at member
  rcases member with rfl | rfl | rfl | rfl | rfl | rfl | rfl
  all_goals exact ⟨rfl, ⟨_, rfl, rfl⟩, ⟨_, rfl, rfl⟩⟩

theorem any_iff {words : List String}
    (known : ∀ word ∈ words, lower word.toList = word.toList ∧ Visible word.toList) (text : Text) :
    (∃ word ∈ words, eqIgnoreAsciiCase (trim text) word.toList = true) ↔ Bare words text := by
  rw [← trim_bare fun word member => (known word member).2]
  constructor
  · rintro ⟨word, member, same⟩
    rw [eqIgnoreAsciiCase_iff, (known word member).1] at same
    exact ⟨word, member, same⟩
  · rintro ⟨word, member, same⟩
    refine ⟨word, member, ?_⟩
    rw [eqIgnoreAsciiCase_iff, (known word member).1]
    exact same

theorem isPgSpecialDatetimeLiteral_iff (s : String) :
    isPgSpecialDatetimeLiteral s = true ↔ Bare gateDatetime s.toList := by
  rw [← any_iff gateDatetime_words, isPgSpecialDatetimeLiteral]
  simp only [Bool.or_eq_true, List.any_eq_true, gateDatetime, List.mem_append, List.mem_singleton,
    or_and_right, exists_or, exists_eq_left]

theorem isPgSpecialNumericLiteral_iff (s : String) :
    isPgSpecialNumericLiteral s = true ↔ Bare gateNumeric s.toList := by
  rw [← any_iff gateNumeric_words, isPgSpecialNumericLiteral]
  simp only [Bool.or_eq_true, List.any_eq_true, gateNumeric, List.mem_append, List.mem_cons,
    List.not_mem_nil, or_false, or_and_right, exists_or, exists_eq_left, or_assoc]

/-- Every word of the numeric input function is a word of the gate. -/
theorem numericRead_bare {accepts : Text → Bool} {text : Text}
    (special : numericRead accepts text = .special) : Bare gateNumeric text := by
  have found : (numericWords.any fun word => lower (strip isSpace text) == word.toList) = true := by
    unfold numericRead at special
    by_contra no
    rw [if_neg no] at special
    split at special <;> cases special
  obtain ⟨word, member, same⟩ := List.any_eq_true.mp found
  obtain ⟨before, after, split, blank, blank'⟩ := strip_split isSpace text
  refine ⟨before, strip isSpace text, after, split, fun c member => isWhitespace_of_isSpace
    (blank c member), fun c member => isWhitespace_of_isSpace (blank' c member), word, ?_,
    beq_iff_eq.mp same⟩
  have shared : ∀ word ∈ numericWords, word ∈ gateNumeric := by decide
  exact shared word member

def temporalSlots : List Builtin :=
  [.date, .time, .timestamp, .timestamptz]

/-- The server reads a special word in the text, and something stands beside it. -/
structure Slips (input : DatetimeInput) (slot : Builtin) (text : Text) : Prop where
  allowed : input.allows slot (input.fields text) = true
  word : (input.fields text).any isSpecialWord = true
  beside : ¬Bare gateDatetime text

theorem checkParam_text {pg : PostgresTypes} {ty : PgType} {slot : Builtin} (s : String)
    (resolved : resolveDomain ty = .builtin slot)
    (target : isTextInputTarget (.builtin slot) = true) :
    checkParam pg (.text s) ty = .ok () ↔ isSpecialFor (.builtin slot) s = false := by
  have taken : accepted pg ty (.text s) = true := by
    rw [accepted, pgTextAccepts, resolved, target, Bool.or_true]
  unfold checkParam
  rw [taken, resolved]
  change (checkSpecial (.text s) (.builtin slot)).bind _ = _ ↔ _
  rw [checkSpecial]
  cases isSpecialFor (.builtin slot) s with
  | false => exact ⟨fun _ => rfl, fun _ => rfl⟩
  | true =>
    constructor
    · intro passed
      cases passed
    · intro plain
      cases plain

theorem temporal_target {slot : Builtin} (temporal : slot ∈ temporalSlots) (s : String) :
    isTextInputTarget (.builtin slot) = true ∧
      isSpecialFor (.builtin slot) s = isPgSpecialDatetimeLiteral s := by
  simp only [temporalSlots, List.mem_cons, List.not_mem_nil, or_false] at temporal
  rcases temporal with rfl | rfl | rfl | rfl
  all_goals exact ⟨rfl, rfl⟩

theorem read_special_iff (input : DatetimeInput) (slot : Builtin) (text : Text) :
    input.read slot text = .special ↔
      input.allows slot (input.fields text) = true ∧
        (input.fields text).any isSpecialWord = true := by
  unfold DatetimeInput.read
  cases input.allows slot (input.fields text) with
  | false => exact ⟨nofun, fun both => nomatch both.1⟩
  | true =>
    cases (input.fields text).any isSpecialWord with
    | false => exact ⟨nofun, fun both => nomatch both.2⟩
    | true => exact ⟨fun _ => ⟨rfl, rfl⟩, fun _ => rfl⟩

/-- The texts that are accepted, against what the server reads in them. -/
structure Gate (pg : PostgresTypes) : Prop where
  temporal : ∀ (input : DatetimeInput) ty slot s, slot ∈ temporalSlots →
    resolveDomain ty = .builtin slot →
    ((checkParam pg (.text s) ty = .ok () → input.read slot s.toList ≠ .special) ↔
      ¬Slips input slot s.toList)
  numeric : ∀ (accepts : Text → Bool) ty s, resolveDomain ty = .builtin .numeric →
    checkParam pg (.text s) ty = .ok () → numericRead accepts s.toList ≠ .special

theorem special_gate (pg : PostgresTypes) : Gate pg where
  temporal := by
    intro input ty slot s temporal resolved
    obtain ⟨target, gate⟩ := temporal_target temporal s
    rw [checkParam_text s resolved target, gate, ← Bool.not_eq_true, isPgSpecialDatetimeLiteral_iff]
    constructor
    · rintro safe ⟨allowed, word, beside⟩
      exact safe beside ((read_special_iff input slot s.toList).mpr ⟨allowed, word⟩)
    · intro safe beside special
      obtain ⟨allowed, word⟩ := (read_special_iff input slot s.toList).mp special
      exact safe ⟨allowed, word, beside⟩
  numeric := by
    intro accepts ty s resolved passed special
    rw [checkParam_text s resolved rfl] at passed
    have refused : isPgSpecialNumericLiteral s = true :=
      (isPgSpecialNumericLiteral_iff s).mpr (numericRead_bare special)
    change isPgSpecialNumericLiteral s = false at passed
    rw [refused] at passed
    cases passed

/-- Fields are cut at white space and at punctuation. -/
def isSeparator (c : Char) : Bool :=
  isSpace c || (33 ≤ c.toNat && c.toNat ≤ 47) || (58 ≤ c.toNat && c.toNat ≤ 64) ||
    (91 ≤ c.toNat && c.toNat ≤ 96) || (123 ≤ c.toNat && c.toNat ≤ 126)

def splitFields (text : Text) : List Text :=
  (text.splitOnP isSeparator).filter fun field => !field.isEmpty

def isNumber (field : Text) : Bool :=
  field.all Char.isDigit

/-- A word for a day and a clock, which is read for a timestamp. -/
def dayAndClock : DatetimeInput where
  fields := splitFields
  allows := fun slot fields =>
    decide (slot = .timestamp ∨ slot = .timestamptz) &&
      match fields with
      | word :: clock => isSpecialWord word && clock.length == 3 && clock.all isNumber
      | [] => false

/-- `today 10:00:00` is a clock reading in a slot for a timestamp, and it is accepted. -/
theorem today_accepted :
    checkParam PgBindLockstep.reference (.text "today 10:00:00") (.builtin .timestamp) = .ok () ∧
      dayAndClock.read .timestamp "today 10:00:00".toList = .special := by
  refine ⟨?_, by decide⟩
  rw [checkParam_text _ rfl rfl]
  decide

end FerroEngine.PgBindSpecials
