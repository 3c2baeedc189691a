import FerroEngine.CanonicalForms
import FerroEngine.MyText

set_option autoImplicit false

/-! # Binding MySQL dates and times

The parse helpers of `ferro-backend-mysql/src/bind.rs`. Every slice stands between ASCII separators
that have been checked, so none of them can cut a character.
-/

namespace FerroEngine.MyBind

open DecimalText MyText

/-- `&s[start..stop]`. -/
def sub (s : Text) (start stop : Nat) : Text :=
  (s.drop start).take (stop - start)

/-- `s.split_once(c)`. -/
def splitAt (c : UInt8) (s : Text) : Option (Text × Text) :=
  match s.dropWhile (· != c) with
  | [] => none
  | _ :: tail => some (s.takeWhile (· != c), tail)

def digits (s : Text) : Option Nat :=
  if s.isEmpty || decide (9 < s.length) || !s.all isDigit then none else some (value s)

def splitDate (s : Text) : Option (Nat × Nat × Nat) :=
  if s.length ≠ 10 ∨ s[4]? ≠ some 45 ∨ s[7]? ≠ some 45 then none
  else do
    let y ← digits (sub s 0 4)
    let mo ← digits (sub s 5 7)
    let d ← digits (sub s 8 10)
    if 12 < mo ∨ 31 < d then none else some (y, mo, d)

/-- The microseconds of a fraction, which has six digits or is absent. -/
def fractionMicros : Option Text → Option Nat
  | none => some 0
  | some f => if f.length = 6 then digits f else none

def splitTimeOfDay (s : Text) : Option (Nat × Nat × Nat × Nat) :=
  let (hms, frac) := splitOnce s
  if hms.length ≠ 8 ∨ hms[2]? ≠ some 58 ∨ hms[5]? ≠ some 58 then none
  else do
    let h ← digits (sub hms 0 2)
    let mi ← digits (sub hms 3 5)
    let sec ← digits (sub hms 6 8)
    if 23 < h ∨ 59 < mi ∨ 59 < sec then none
    else
      let us ← fractionMicros frac
      some (h, mi, sec, us)

/-- `MyValue::Date` of components that fit. -/
def myDate (date : Nat × Nat × Nat) (time : Nat × Nat × Nat × Nat) : MyValue :=
  .date (.ofNat date.1) (.ofNat date.2.1) (.ofNat date.2.2) (.ofNat time.1) (.ofNat time.2.1)
    (.ofNat time.2.2.1) (.ofNat time.2.2.2)

def splitDateAndTime (s : Text) (sep : UInt8) : Option MyValue :=
  if s[10]? ≠ some sep then none
  else do
    let date ← splitDate (sub s 0 10)
    let time ← splitTimeOfDay (s.drop 11)
    some (myDate date time)

def splitNaiveDatetime (s : Text) : Option MyValue :=
  splitDateAndTime s 32

/-- `s.strip_prefix('-')`, and whether there was one. -/
def stripMinus : Text → Bool × Text
  | 45 :: rest => (true, rest)
  | s => (false, s)

def splitTime (s : Text) : Option MyValue := do
  let (neg, rest) := stripMinus s
  let (hh, tail) ← splitAt 58 rest
  if hh.isEmpty || decide (3 < hh.length) then none
  else
    let hours ← digits hh
    -- The wall clock with a placeholder hour checks the minutes, the seconds and the fraction.
    let (_, mi, sec, us) ← splitTimeOfDay (48 :: 48 :: 58 :: tail)
    let totalUs := hours * 3600 * usPerSecond + mi * 60 * usPerSecond + sec * usPerSecond + us
    if maxTimeUs < totalUs then none
    else
      some (.time (neg && decide (totalUs ≠ 0)) (.ofNat (hours / 24)) (.ofNat (hours % 24))
        (.ofNat mi) (.ofNat sec) (.ofNat us))

def parseDate (s : Text) : Option MyValue := do
  let date ← splitDate s
  some (myDate date (0, 0, 0, 0))

def parseDatetime (s : Text) : Option MyValue :=
  splitNaiveDatetime s

/-- `s.strip_suffix('Z')`. -/
def stripZone (s : Text) : Option Text :=
  if s.getLast? = some 90 then some s.dropLast else none

def parseRfc3339Utc (s : Text) : Option MyValue :=
  if s = zeroDatetime then some (myDate (0, 0, 0) (0, 0, 0, 0))
  else do
    let body ← stripZone s
    if body[10]? ≠ some 84 then none else splitDateAndTime body 84

def parseTime (s : Text) : Option MyValue :=
  splitTime s

def isDecimalText (s : Text) : Bool :=
  let (int, frac) := splitOnce (stripSign s)
  digitsOk int && frac.all digitsOk

/-- `value_to_my` of a `DECIMAL`. -/
def parseDecimal (s : Text) : Option MyValue :=
  if isDecimalText s then some (.bytes s) else none

/-! ## Pieces -/

open CanonicalForms

theorem digits_iff {s : Text} {n : Nat} :
    digits s = some n ↔ s ≠ [] ∧ s.length ≤ 9 ∧ Digits s ∧ n = value s := by
  rw [digits]
  cases s with
  | nil => simp
  | cons b s =>
    rw [List.isEmpty_cons, Bool.false_or]
    by_cases long : 9 < (b :: s).length
    · rw [decide_eq_true long]
      simp only [Bool.true_or, if_true]
      exact ⟨nofun, fun both => absurd both.2.1 (by omega)⟩
    · rw [decide_eq_false long, Bool.false_or]
      by_cases all : (b :: s).all isDigit = true
      · rw [all]
        simp only [Bool.not_true, Bool.false_eq_true, if_false, Option.some.injEq]
        constructor
        · rintro rfl
          exact ⟨List.cons_ne_nil _ _, by omega, List.all_eq_true.mp all, rfl⟩
        · exact fun both => both.2.2.2.symm
      · rw [Bool.not_eq_true] at all
        rw [all]
        simp only [Bool.not_false, if_true]
        refine ⟨nofun, fun both => ?_⟩
        have yes : (b :: s).all isDigit = true := List.all_eq_true.mpr both.2.2.1
        rw [all] at yes
        cases yes

/-- A field of a fixed width. -/
theorem digits_width {s : Text} {width n : Nat} (length : s.length = width) (wide : 1 ≤ width)
    (narrow : width ≤ 9) : digits s = some n ↔ n < 10 ^ width ∧ s = padded width n := by
  rw [digits_iff]
  constructor
  · rintro ⟨_, _, all, rfl⟩
    have small := value_lt s
    have back := padded_value all
    rw [length] at small back
    exact ⟨small, back.symm⟩
  · rintro ⟨small, rfl⟩
    refine ⟨?_, by omega, digits_padded width n, (value_padded small).symm⟩
    rintro empty
    rw [empty] at length
    rw [← length] at wide
    cases wide

theorem digits_padded_eq {width n : Nat} (small : n < 10 ^ width) (wide : 1 ≤ width)
    (narrow : width ≤ 9) : digits (padded width n) = some n :=
  (digits_width (padded_length width n) wide narrow).mpr ⟨small, rfl⟩

/-- A text with a separator at a place is cut there. -/
theorem cut {s : Text} {i n : Nat} {c : UInt8} (at' : s[i + n]? = some c) :
    s.drop i = sub s i (i + n) ++ c :: s.drop (i + n + 1) ∧ (sub s i (i + n)).length = n := by
  obtain ⟨inside, here⟩ := List.getElem?_eq_some_iff.mp at'
  have width : i + n - i = n := by omega
  have tail : (s.drop i).drop n = c :: s.drop (i + n + 1) := by
    rw [List.drop_drop, List.drop_eq_getElem_cons inside, here]
  rw [sub, width]
  constructor
  · rw [← tail, List.take_append_drop]
  · rw [List.length_take, List.length_drop]
    omega

theorem uncut {front rest : Text} {c : UInt8} {n : Nat} (length : front.length = n) :
    (front ++ c :: rest)[n]? = some c ∧ (front ++ c :: rest).take n = front ∧
      (front ++ c :: rest).drop (n + 1) = rest := by
  subst length
  refine ⟨?_, List.take_left, ?_⟩
  · rw [List.getElem?_append_right (Nat.le_refl _), Nat.sub_self]
    rfl
  · rw [← List.drop_drop, List.drop_left]
    rfl

/-- Two separators, and three fields of which the last two have two digits. -/
theorem fields_iff {s : Text} {c : UInt8} {n x y z : Nat} (wide : 1 ≤ n) (narrow : n ≤ 9) :
    (s.length = n + 6 ∧ s[n]? = some c ∧ s[n + 3]? = some c ∧ digits (sub s 0 n) = some x ∧
      digits (sub s (n + 1) (n + 3)) = some y ∧ digits (sub s (n + 4) (n + 6)) = some z) ↔
    (x < 10 ^ n ∧ y < 10 ^ 2 ∧ z < 10 ^ 2) ∧
      s = padded n x ++ c :: (padded 2 y ++ c :: padded 2 z) := by
  constructor
  · rintro ⟨length, first, second, one, two, three⟩
    have start : s[0 + n]? = some c := by rw [Nat.zero_add]; exact first
    obtain ⟨front, frontLength⟩ := cut start
    obtain ⟨middle, middleLength⟩ := cut (i := n + 1) (n := 2) second
    rw [List.drop_zero, Nat.zero_add] at front
    rw [Nat.zero_add] at frontLength
    have last : sub s (n + 4) (n + 6) = s.drop (n + 4) := by
      rw [sub, List.take_of_length_le]
      rw [List.length_drop]
      omega
    have lastLength : (s.drop (n + 4)).length = 2 := by
      rw [List.length_drop]
      omega
    rw [last] at three
    obtain ⟨xSmall, xText⟩ := (digits_width frontLength wide narrow).mp one
    obtain ⟨ySmall, yText⟩ := (digits_width middleLength (by decide) (by decide)).mp two
    obtain ⟨zSmall, zText⟩ := (digits_width lastLength (by decide) (by decide)).mp three
    refine ⟨⟨xSmall, ySmall, zSmall⟩, ?_⟩
    have second' : n + 1 + 2 + 1 = n + 4 := by omega
    rw [second'] at middle
    rw [front, middle, yText, zText, ← xText]
  · rintro ⟨⟨xSmall, ySmall, zSmall⟩, rfl⟩
    obtain ⟨at', taken, dropped⟩ := @uncut (padded n x)
      (padded 2 y ++ c :: padded 2 z) c n (padded_length n x)
    obtain ⟨at'', taken', dropped'⟩ := @uncut (padded 2 y) (padded 2 z) c 2
      (padded_length 2 y)
    refine ⟨?_, at', ?_, ?_, ?_, ?_⟩
    · simp only [List.length_append, List.length_cons, padded_length]
    · have place : n + 3 = n + 1 + 2 := by omega
      rw [place, ← List.getElem?_drop, dropped]
      exact at''
    · rw [sub, List.drop_zero, Nat.sub_zero, taken]
      exact digits_padded_eq xSmall wide narrow
    · have width : n + 3 - (n + 1) = 2 := by omega
      rw [sub, dropped, width, taken']
      exact digits_padded_eq ySmall (by decide) (by decide)
    · have width : n + 6 - (n + 4) = 2 := by omega
      have place : n + 4 = n + 1 + 3 := by omega
      rw [sub, width, place, ← List.drop_drop, dropped, dropped',
        List.take_of_length_le (by rw [padded_length])]
      exact digits_padded_eq zSmall (by decide) (by decide)

theorem splitDate_iff {s : Text} {y mo d : Nat} :
    splitDate s = some (y, mo, d) ↔
      (y < 10000 ∧ mo ≤ 12 ∧ d ≤ 31) ∧ s = dateText y mo d := by
  have fields := fields_iff (s := s) (c := 45) (n := 4) (x := y) (y := mo) (z := d)
    (by decide) (by decide)
  rw [splitDate, dateText]
  constructor
  · intro found
    split at found
    · cases found
    · rename_i shape
      rw [not_or, not_or, not_not, not_not, not_not] at shape
      simp only [Option.bind_eq_bind, Option.bind_eq_some_iff] at found
      obtain ⟨y', one, mo', two, d', three, ranged⟩ := found
      split at ranged
      · cases ranged
      · rename_i inside
        cases ranged
        obtain ⟨small, text⟩ := fields.mp ⟨shape.1, shape.2.1, shape.2.2, one, two, three⟩
        exact ⟨by omega, text⟩
  · rintro ⟨small, text⟩
    obtain ⟨length, first, second, one, two, three⟩ := fields.mpr ⟨by omega, text⟩
    rw [if_neg (by rw [not_or, not_or, not_not, not_not, not_not]; exact ⟨length, first, second⟩)]
    rw [Option.bind_eq_bind, one, Option.bind_some, two, Option.bind_some,
      three, Option.bind_some]
    exact if_neg (by omega)

/-- How a fraction with so many microseconds may be written. -/
def Fraction (us : Nat) (text : Text) : Prop :=
  us < 10 ^ 6 ∧ (us = 0 ∧ text = [] ∨ text = 46 :: padded 6 us)

theorem fractionMicros_iff {frac : Option Text} {us : Nat} :
    fractionMicros frac = some us ↔ Fraction us (frac.elim [] fun f => 46 :: f) := by
  rw [Fraction]
  cases frac with
  | none =>
    rw [fractionMicros, Option.some.injEq]
    constructor
    · rintro rfl
      exact ⟨by decide, .inl ⟨rfl, rfl⟩⟩
    · rintro ⟨_, ⟨zero, _⟩ | other⟩
      · exact zero.symm
      · cases other
  | some f =>
    rw [fractionMicros]
    dsimp only [Option.elim]
    by_cases six : f.length = 6
    · rw [if_pos six, digits_width six (by decide) (by decide), List.cons.injEq]
      constructor
      · rintro ⟨small, text⟩
        exact ⟨small, .inr ⟨rfl, text⟩⟩
      · rintro ⟨small, ⟨_, other⟩ | ⟨_, text⟩⟩
        · cases other
        · exact ⟨small, text⟩
    · rw [if_neg six]
      refine ⟨nofun, ?_⟩
      rintro ⟨_, ⟨_, other⟩ | same⟩
      · cases other
      · have text := (List.cons.inj same).2
        rw [text, padded_length] at six
        exact absurd rfl six

theorem digits_no_point {s : Text} (all : Digits s) {c : UInt8} (other : isDigit c = false) :
    c ∉ s := by
  intro member
  rw [all c member] at other
  cases other

/-- The first separator ends the front. -/
theorem span_at {c : UInt8} {front : Text} (clean : c ∉ front) (tail : Text) :
    (front ++ c :: tail).dropWhile (· != c) = c :: tail ∧
      (front ++ c :: tail).takeWhile (· != c) = front := by
  induction front with
  | nil => simp
  | cons b front ih =>
    obtain ⟨here, later⟩ := not_or.mp (mt List.mem_cons.mpr clean)
    obtain ⟨drop, take⟩ := ih later
    have pass : (b != c) = true := bne_iff_ne.mpr (Ne.symm here)
    simp only [List.cons_append, List.dropWhile_cons, List.takeWhile_cons, pass, if_true, drop,
      take, and_self]

theorem splitAt_append {c : UInt8} {front : Text} (clean : c ∉ front) (tail : Text) :
    splitAt c (front ++ c :: tail) = some (front, tail) := by
  obtain ⟨drop, take⟩ := span_at clean tail
  rw [splitAt, drop, take]

theorem splitAt_some {c : UInt8} {s front tail : Text} (found : splitAt c s = some (front, tail)) :
    s = front ++ c :: tail := by
  rw [splitAt] at found
  have joined := List.takeWhile_append_dropWhile (p := (· != c)) (l := s)
  cases rest : s.dropWhile (· != c) with
  | nil =>
    rw [rest] at found
    cases found
  | cons b tail' =>
    rw [rest] at found
    cases found
    have same : b = c := by
      have not := List.head?_dropWhile_not (· != c) s
      rw [rest] at not
      simpa using not
    rw [rest, same] at joined
    exact joined.symm

theorem clockText_length (h mi sec : Nat) : (clockText h mi sec).length = 8 := by
  simp only [clockText, minuteText, List.length_append, List.length_cons, padded_length]

theorem clock_no_point (h mi sec : Nat) : (46 : UInt8) ∉ clockText h mi sec := by
  have clean (n : Nat) : (46 : UInt8) ∉ padded 2 n := digits_no_point (digits_padded 2 n) (by decide)
  have colon : (46 : UInt8) ≠ 58 := by decide
  simp only [clockText, minuteText, List.mem_append, List.mem_cons, clean, colon, or_self,
    not_false_eq_true]

/-- The point after a clock is found. -/
theorem splitOnce_clock (h mi sec : Nat) (frac : Option Text) :
    splitOnce (clockText h mi sec ++ frac.elim [] fun f => 46 :: f) =
      (clockText h mi sec, frac) := by
  have clean := clock_no_point h mi sec
  cases frac with
  | none =>
    have none : (clockText h mi sec).dropWhile (· != 46) = [] := by
      rw [← List.append_nil (clockText h mi sec), List.dropWhile_append_of_pos]
      · rfl
      · intro b member
        rw [bne_iff_ne]
        rintro rfl
        exact clean member
    rw [splitOnce]
    dsimp only [Option.elim]
    rw [List.append_nil, none]
  | some f =>
    obtain ⟨drop, take⟩ := span_at clean f
    rw [splitOnce]
    dsimp only [Option.elim]
    rw [drop, take]

theorem splitTimeOfDay_iff {s : Text} {h mi sec us : Nat} :
    splitTimeOfDay s = some (h, mi, sec, us) ↔
      (h ≤ 23 ∧ mi ≤ 59 ∧ sec ≤ 59) ∧ ∃ frac, Fraction us frac ∧ s = clockText h mi sec ++ frac := by
  have fields := fields_iff (s := (splitOnce s).1) (c := 58) (n := 2) (x := h) (y := mi) (z := sec)
    (by decide) (by decide)
  rw [splitTimeOfDay]
  constructor
  · intro found
    dsimp only at found
    split at found
    · cases found
    · rename_i shape
      rw [not_or, not_or, not_not, not_not, not_not] at shape
      simp only [Option.bind_eq_bind, Option.bind_eq_some_iff] at found
      obtain ⟨h', one, mi', two, sec', three, ranged⟩ := found
      split at ranged
      · cases ranged
      · rename_i inside
        obtain ⟨us', micros, same⟩ := Option.bind_eq_some_iff.mp ranged
        cases same
        obtain ⟨small, text⟩ := fields.mp ⟨shape.1, shape.2.1, shape.2.2, one, two, three⟩
        refine ⟨by omega, _, fractionMicros_iff.mp micros, ?_⟩
        have joined := splitOnce_join s
        rw [text] at joined
        exact joined
  · rintro ⟨small, frac, fraction, rfl⟩
    obtain ⟨opt, rfl⟩ : ∃ opt : Option Text, frac = opt.elim [] fun f => 46 :: f := by
      rcases fraction.2 with ⟨_, rfl⟩ | rfl
      · exact ⟨none, rfl⟩
      · exact ⟨some _, rfl⟩
    rw [splitOnce_clock] at fields ⊢
    obtain ⟨length, first, second, one, two, three⟩ := fields.mpr ⟨by omega, rfl⟩
    dsimp only at length first second one two three ⊢
    rw [if_neg (by rw [not_or, not_or, not_not, not_not, not_not]; exact ⟨length, first, second⟩)]
    rw [Option.bind_eq_bind, one, Option.bind_some, two, Option.bind_some,
      three, Option.bind_some, if_neg (by omega),
      fractionMicros_iff.mpr fraction]
    rfl

/-! ## The parse helpers -/

/-- Components of a date that are in range. -/
def DateRange (y mo d : Nat) : Prop :=
  y ≤ 9999 ∧ mo ≤ 12 ∧ d ≤ 31

/-- Components of a wall clock that are in range. -/
def ClockRange (h mi sec : Nat) : Prop :=
  h ≤ 23 ∧ mi ≤ 59 ∧ sec ≤ 59

theorem dateText_length (y mo d : Nat) : (dateText y mo d).length = 10 := by
  simp only [dateText, List.length_append, List.length_cons, padded_length]

theorem splitDateAndTime_iff {s : Text} {sep : UInt8} {v : MyValue} :
    splitDateAndTime s sep = some v ↔
      ∃ y mo d h mi sec us frac, DateRange y mo d ∧ ClockRange h mi sec ∧ Fraction us frac ∧
        s = dateText y mo d ++ sep :: (clockText h mi sec ++ frac) ∧
        v = myDate (y, mo, d) (h, mi, sec, us) := by
  rw [splitDateAndTime]
  constructor
  · intro found
    split at found
    · cases found
    · rename_i separated
      rw [not_not] at separated
      simp only [Option.bind_eq_bind, Option.bind_eq_some_iff, Prod.exists] at found
      obtain ⟨y, mo, d, date, h, mi, sec, us, time, same⟩ := found
      obtain ⟨dateRange, dateShape⟩ := splitDate_iff.mp date
      obtain ⟨clockRange, frac, fraction, timeShape⟩ := splitTimeOfDay_iff.mp time
      have start : s[0 + 10]? = some sep := separated
      obtain ⟨joined, _⟩ := cut start
      rw [List.drop_zero, Nat.zero_add, dateShape, timeShape] at joined
      exact ⟨y, mo, d, h, mi, sec, us, frac, ⟨by omega, dateRange.2⟩, clockRange, fraction, joined,
        (Option.some.inj same).symm⟩
  · rintro ⟨y, mo, d, h, mi, sec, us, frac, dateRange, clockRange, fraction, rfl, rfl⟩
    obtain ⟨separated, taken, dropped⟩ := @uncut _ (clockText h mi sec ++ frac) sep _
      (dateText_length y mo d)
    have date := splitDate_iff.mpr ⟨⟨by have := dateRange.1; omega, dateRange.2⟩,
      @rfl _ (dateText y mo d)⟩
    have time := splitTimeOfDay_iff.mpr ⟨clockRange, frac, fraction, rfl⟩
    rw [if_neg (not_not.mpr separated), sub, List.drop_zero, taken, dropped, date, time]
    rfl

theorem parseDate_iff {s : Text} {v : MyValue} :
    parseDate s = some v ↔
      ∃ y mo d, DateRange y mo d ∧ s = dateText y mo d ∧ v = myDate (y, mo, d) (0, 0, 0, 0) := by
  rw [parseDate]
  simp only [Option.bind_eq_bind, Option.bind_eq_some_iff, Prod.exists, splitDate_iff,
    Option.some.injEq]
  constructor
  · rintro ⟨y, mo, d, ⟨range, text⟩, same⟩
    exact ⟨y, mo, d, ⟨by omega, range.2⟩, text, same.symm⟩
  · rintro ⟨y, mo, d, range, text, same⟩
    have year := range.1
    exact ⟨y, mo, d, ⟨⟨by omega, range.2⟩, text⟩, same.symm⟩

theorem stripZone_iff {s body : Text} : stripZone s = some body ↔ s = body ++ [90] := by
  rw [stripZone]
  constructor
  · intro found
    split at found
    · rename_i last
      obtain ⟨front, rfl⟩ := List.getLast?_eq_some_iff.mp last
      rw [List.dropLast_concat, Option.some.injEq] at found
      rw [found]
    · cases found
  · rintro rfl
    rw [List.getLast?_append, List.dropLast_concat]
    rfl

theorem zeroDatetime_eq : zeroDatetime = dateText 0 0 0 ++ 32 :: clockText 0 0 0 :=
  rfl

theorem parseRfc3339Utc_iff {s : Text} {v : MyValue} :
    parseRfc3339Utc s = some v ↔
      s = zeroDatetime ∧ v = myDate (0, 0, 0) (0, 0, 0, 0) ∨
      ∃ y mo d h mi sec us frac, DateRange y mo d ∧ ClockRange h mi sec ∧ Fraction us frac ∧
        s = dateText y mo d ++ 84 :: (clockText h mi sec ++ frac) ++ [90] ∧
        v = myDate (y, mo, d) (h, mi, sec, us) := by
  rw [parseRfc3339Utc]
  by_cases zero : s = zeroDatetime
  · rw [if_pos zero]
    constructor
    · intro same
      exact .inl ⟨zero, (Option.some.inj same).symm⟩
    · rintro (⟨_, rfl⟩ | ⟨y, mo, d, h, mi, sec, us, frac, _, _, _, text, _⟩)
      · rfl
      · rw [zero] at text
        have last := congrArg List.getLast? text
        rw [List.getLast?_append] at last
        cases last
  · rw [if_neg zero]
    have early {body : Text} {v : MyValue} (found : splitDateAndTime body 84 = some v) :
        body[10]? = some 84 := by
      rw [splitDateAndTime] at found
      split at found
      · cases found
      · rename_i separated
        exact not_not.mp separated
    constructor
    · intro found
      obtain ⟨body, stripped, rest⟩ := Option.bind_eq_some_iff.mp found
      split at rest
      · cases rest
      · obtain ⟨y, mo, d, h, mi, sec, us, frac, dateRange, clockRange, fraction, text, same⟩ :=
          splitDateAndTime_iff.mp rest
        refine .inr ⟨y, mo, d, h, mi, sec, us, frac, dateRange, clockRange, fraction, ?_, same⟩
        rw [← text]
        exact stripZone_iff.mp stripped
    · rintro (⟨same, _⟩ | ⟨y, mo, d, h, mi, sec, us, frac, dateRange, clockRange, fraction, text,
        same⟩)
      · exact absurd same zero
      · have done : splitDateAndTime (dateText y mo d ++ 84 :: (clockText h mi sec ++ frac)) 84 =
            some v := splitDateAndTime_iff.mpr
          ⟨y, mo, d, h, mi, sec, us, frac, dateRange, clockRange, fraction, rfl, same⟩
        rw [stripZone_iff.mpr text, Option.bind_eq_bind, Option.bind_some,
          if_neg (not_not.mpr (early done))]
        exact done

/-- `MyValue::Time` of a count of hours and a rest. -/
def boundTime (neg : Bool) (hours mi sec us : Nat) : MyValue :=
  .time (neg && decide (hours * 3600 * usPerSecond + mi * 60 * usPerSecond + sec * usPerSecond + us
      ≠ 0))
    (.ofNat (hours / 24)) (.ofNat (hours % 24)) (.ofNat mi) (.ofNat sec) (.ofNat us)

/-- The hour field that is accepted: one to three digits. -/
structure HourField (hh : Text) : Prop where
  digits : Digits hh
  some_ : hh ≠ []
  short : hh.length ≤ 3
  small : value hh ≤ 838

/-- The text of a sign. -/
def signText (neg : Bool) : Text :=
  if neg then [45] else []

theorem stripMinus_join (s : Text) : s = signText (stripMinus s).1 ++ (stripMinus s).2 := by
  unfold stripMinus
  split <;> rfl

theorem stripMinus_sign {hh : Text} (field : HourField hh) (neg : Bool) (rest : Text) :
    stripMinus (signText neg ++ (hh ++ rest)) = (neg, hh ++ rest) := by
  cases neg with
  | true => rfl
  | false =>
    cases hh with
    | nil => exact absurd rfl field.some_
    | cons b hh =>
      have minus : b ≠ 45 := by
        rintro rfl
        exact absurd (field.digits 45 List.mem_cons_self) (by decide)
      change stripMinus (b :: (hh ++ rest)) = _
      unfold stripMinus
      split
      · rename_i same
        exact absurd (List.cons.inj same).1 minus
      · rfl

/-- The clock with a placeholder hour. -/
theorem placeholder_iff {tail : Text} {h mi sec us : Nat} :
    splitTimeOfDay (48 :: 48 :: 58 :: tail) = some (h, mi, sec, us) ↔
      h = 0 ∧ (mi ≤ 59 ∧ sec ≤ 59) ∧ ∃ frac, Fraction us frac ∧
        58 :: tail = minuteText mi sec ++ frac := by
  have zero : (48 : UInt8) :: 48 :: 58 :: tail = padded 2 0 ++ 58 :: tail := rfl
  rw [zero, splitTimeOfDay_iff]
  constructor
  · rintro ⟨range, frac, fraction, text⟩
    rw [clockText, List.append_assoc] at text
    obtain ⟨front, rest⟩ := List.append_inj text (by rw [padded_length, padded_length])
    have hour := congrArg value front
    rw [value_padded (by decide), value_padded (by omega)] at hour
    exact ⟨hour.symm, range.2, frac, fraction, rest⟩
  · rintro ⟨rfl, range, frac, fraction, text⟩
    refine ⟨⟨by decide, range⟩, frac, fraction, ?_⟩
    rw [clockText, List.append_assoc, text]

theorem parseTime_iff {s : Text} {v : MyValue} :
    parseTime s = some v ↔
      ∃ neg hh mi sec us frac, HourField hh ∧ (mi ≤ 59 ∧ sec ≤ 59) ∧ Fraction us frac ∧
        s = signText neg ++ (hh ++ (minuteText mi sec ++ frac)) ∧
        v = boundTime neg (value hh) mi sec us := by
  rw [parseTime, splitTime]
  constructor
  · intro found
    dsimp only at found
    obtain ⟨⟨hh, tail⟩, halves, rest⟩ := Option.bind_eq_some_iff.mp found
    have joined := splitAt_some halves
    dsimp only at rest
    split at rest
    · cases rest
    · rename_i width
      rw [Bool.or_eq_true, not_or, List.isEmpty_iff, decide_eq_true_eq] at width
      obtain ⟨hours, hour, more⟩ := Option.bind_eq_some_iff.mp rest
      obtain ⟨⟨h, mi, sec, us⟩, clock, last⟩ := Option.bind_eq_some_iff.mp more
      obtain ⟨_, _, all, rfl⟩ := digits_iff.mp hour
      obtain ⟨_, range, frac, fraction, text⟩ := placeholder_iff.mp clock
      dsimp only at last
      split at last
      · cases last
      · rename_i inside
        have micros := fraction.1
        unfold maxTimeUs usPerSecond at inside
        refine ⟨(stripMinus s).1, hh, mi, sec, us, frac, ⟨all, width.1, by omega, by omega⟩, range,
          fraction, ?_, (Option.some.inj last).symm⟩
        rw [← text, ← joined]
        exact stripMinus_join s
  · rintro ⟨neg, hh, mi, sec, us, frac, field, range, fraction, rfl, rfl⟩
    have clean := digits_no_point field.digits (c := 58) (by decide)
    have hour : digits hh = some (value hh) :=
      digits_iff.mpr ⟨field.some_, by have := field.short; omega, field.digits, rfl⟩
    have clock := placeholder_iff.mpr
      ⟨rfl, range, frac, fraction, @rfl _ (58 :: (padded 2 mi ++ 58 :: padded 2 sec ++ frac))⟩
    have halves := splitAt_append clean (padded 2 mi ++ 58 :: padded 2 sec ++ frac)
    have width : (hh.isEmpty || decide (3 < hh.length)) = false := by
      have short := field.short
      rw [decide_eq_false (by omega), Bool.or_false, List.isEmpty_eq_false_iff]
      exact field.some_
    have micros := fraction.1
    have small := field.small
    have inside : ¬ maxTimeUs < value hh * 3600 * usPerSecond + mi * 60 * usPerSecond +
        sec * usPerSecond + us := by
      unfold maxTimeUs usPerSecond
      omega
    rw [stripMinus_sign field]
    dsimp only
    have shape : minuteText mi sec ++ frac = 58 :: (padded 2 mi ++ 58 :: padded 2 sec ++ frac) := rfl
    rw [shape, Option.bind_eq_bind, halves, Option.bind_some]
    dsimp only
    rw [width, if_neg Bool.false_ne_true, hour, Option.bind_eq_bind, Option.bind_some, clock,
      Option.bind_eq_bind, Option.bind_some]
    dsimp only
    rw [if_neg inside]
    rfl

end FerroEngine.MyBind
