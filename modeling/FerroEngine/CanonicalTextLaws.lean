import FerroEngine.CanonicalForms

set_option autoImplicit false

/-! # The validators accept the grammar

A text with a newline at its end apart.
-/

namespace FerroEngine.CanonicalTextLaws

open DecimalText CivilCalendar CanonicalText CanonicalForms

/-! ## Heads and ends -/

theorem padded_cons (width n : Nat) :
    ∃ b s, padded (width + 1) n = b :: s ∧ isDigit b = true := by
  have length := padded_length (width + 1) n
  cases shape : padded (width + 1) n with
  | nil =>
    rw [shape] at length
    cases length
  | cons b s =>
    refine ⟨b, s, rfl, digits_padded (width + 1) n b ?_⟩
    rw [shape]
    exact List.mem_cons_self

theorem dateText_head (y mo d : Nat) (rest : Text) :
    ∃ b s, dateText y mo d ++ rest = b :: s ∧ isDigit b = true := by
  obtain ⟨b, s, shape, isOne⟩ := padded_cons 3 y
  unfold dateText
  rw [shape]
  exact ⟨b, _, rfl, isOne⟩

theorem infinity_head {s : Text} (member : s ∈ infinities) :
    ∃ b rest, s = b :: rest ∧ isDigit b = false := by
  unfold infinities at member
  simp only [List.mem_cons, List.not_mem_nil, or_false] at member
  obtain rfl | rfl := member
  · exact ⟨_, _, rfl, rfl⟩
  · exact ⟨_, _, rfl, rfl⟩

theorem dateText_not_infinity (y mo d : Nat) (rest : Text) :
    dateText y mo d ++ rest ∉ infinities := by
  intro member
  obtain ⟨b, s, shape, isOne⟩ := dateText_head y mo d rest
  obtain ⟨b', s', shape', no⟩ := infinity_head member
  rw [shape, List.cons.injEq] at shape'
  rw [shape'.1, no] at isOne
  cases isOne

/-- An end of a regular expression: a text, perhaps with a newline behind it. -/
def Ends (ending : Text → Bool) (tail : Text) : Prop :=
  ∀ s, ending s = true ↔ s = tail ∨ s = tail ++ [10]

theorem ends_dollar : Ends dollar [] :=
  fun _ => dollar_iff

theorem ends_zone : Ends zone [90] := by
  intro s
  unfold zone
  rw [Option.any_eq_true]
  simp only [literal_iff, dollar_iff]
  constructor
  · rintro ⟨rest, rfl, rfl | rfl⟩
    · exact .inl rfl
    · exact .inr rfl
  · rintro (rfl | rfl)
    · exact ⟨[], rfl, .inl rfl⟩
    · exact ⟨[10], rfl, .inr rfl⟩

theorem noNewline_append {front tail : Text} (clean : NoNewline (front ++ (tail ++ [10]))) :
    False := by
  apply clean
  rw [← List.append_assoc]
  exact List.getLast?_concat

/-- Without the newline only the text itself ends a match. -/
theorem ends_clean {ending : Text → Bool} {tail : Text} (ends : Ends ending tail)
    {front rest : Text} (clean : NoNewline (front ++ rest)) :
    ending rest = true ↔ rest = tail := by
  rw [ends]
  constructor
  · rintro (same | rfl)
    · exact same
    · exact (noNewline_append clean).elim
  · exact .inl

/-! ## Dates -/

theorem checkDateParts_ok {y mo d : Nat} {tag : Tag} (year : y ≤ 9999) :
    (∃ b, checkDateParts (y, mo, d) tag = .ok b) ↔
      mo ≤ 12 ∧ d ≤ 31 ∧ (hasZero (y, mo, d) = true ∨ Exists y mo d) := by
  have zeros : hasZero (y, mo, d) = true ↔ y = 0 ∨ mo = 0 ∨ d = 0 := by
    unfold hasZero
    simp only [Bool.or_eq_true, decide_eq_true_eq, or_assoc]
  rw [zeros]
  unfold checkDateParts
  dsimp only
  by_cases outside : 12 < mo ∨ 31 < d
  · rw [if_pos outside]
    exact iff_of_false nofun (by omega)
  rw [if_neg outside]
  by_cases zero : y = 0 ∨ mo = 0 ∨ d = 0
  · rw [if_pos zero]
    exact iff_of_true ⟨_, rfl⟩ ⟨by omega, by omega, .inl zero⟩
  rw [if_neg zero]
  have check : checkdate mo d y = true ↔ Exists y mo d := by
    unfold checkdate
    rw [Bool.and_eq_true, decide_eq_true_eq, decide_eq_true_eq]
    exact and_iff_right (by omega)
  by_cases real : Exists y mo d
  · rw [check.mpr real, if_neg (by decide)]
    exact iff_of_true ⟨_, rfl⟩ ⟨by omega, by omega, .inr real⟩
  · have refused : checkdate mo d y = false := by
      rw [Bool.eq_false_iff]
      exact fun ok => real (check.mp ok)
    rw [refused, if_pos rfl]
    refine iff_of_false nofun ?_
    rintro ⟨-, -, zero' | real'⟩
    · exact zero zero'
    · exact real real'

theorem reDate_iff {s : Text} {y mo d : Nat} :
    reDate s = some (y, mo, d) ↔
      (y < 10 ^ 4 ∧ mo < 10 ^ 2 ∧ d < 10 ^ 2) ∧
        ∃ rest, s = dateText y mo d ++ rest ∧ dollar rest = true := by
  unfold reDate
  simp only [Option.bind_eq_bind, Option.bind_eq_some_iff, Prod.exists, dateGroups_iff]
  constructor
  · rintro ⟨y', mo', d', rest, ⟨small, rfl⟩, same⟩
    split at same
    · rename_i ends
      cases same
      exact ⟨small, rest, rfl, ends⟩
    · cases same
  · rintro ⟨small, rest, rfl, ends⟩
    exact ⟨y, mo, d, rest, ⟨small, rfl⟩, if_pos ends⟩

theorem map_eq_ok {α ε : Type} {x : Except ε α} {text out : Text} :
    x.map (fun _ => text) = .ok out ↔ (∃ b, x = .ok b) ∧ out = text := by
  cases x with
  | error e => exact iff_of_false nofun fun both => by cases both.1.choose_spec
  | ok a =>
    change Except.ok text = .ok out ↔ _
    rw [Except.ok.injEq]
    exact ⟨fun same => ⟨⟨a, rfl⟩, same.symm⟩, fun both => both.2.symm⟩

theorem reDate_day (date : Day) : reDate date.text = some (date.y, date.mo, date.d) := by
  have year := date.year
  have month := date.month
  have day := date.day
  refine reDate_iff.mpr ⟨by omega, [], (List.append_nil _).symm, rfl⟩

theorem date_accepts {text : Text} {z : Bool} (form : IsDate text z) : date text = .ok text := by
  unfold date
  by_cases infinite : text ∈ infinities
  · rw [if_pos infinite]
  rw [if_neg infinite]
  cases form with
  | infinity member => exact absurd member infinite
  | day date =>
    rw [reDate_day]
    exact map_eq_ok.mpr ⟨(checkDateParts_ok date.year).mpr ⟨date.month, date.day, date.real⟩, rfl⟩

theorem date_iff {text out : Text} (clean : NoNewline text) :
    date text = .ok out ↔ out = text ∧ ∃ z, IsDate text z := by
  constructor
  · intro done
    unfold date at done
    by_cases infinite : text ∈ infinities
    · rw [if_pos infinite] at done
      exact ⟨(Except.ok.inj done).symm, true, .infinity infinite⟩
    rw [if_neg infinite] at done
    cases found : reDate text with
    | none =>
      rw [found] at done
      cases done
    | some m =>
      obtain ⟨y, mo, d⟩ := m
      rw [found] at done
      obtain ⟨small, rest, rfl, ends⟩ := reDate_iff.mp found
      rw [ends_clean ends_dollar clean] at ends
      obtain ⟨checked, same⟩ := map_eq_ok.mp done
      obtain ⟨month, day, real⟩ := (checkDateParts_ok (by omega)).mp checked
      refine ⟨same, hasZero (y, mo, d), ?_⟩
      rw [ends, List.append_nil]
      exact .day ⟨y, mo, d, by omega, month, day, real⟩
  · rintro ⟨rfl, z, form⟩
    exact date_accepts form

theorem dateIsSentinel_eq {text : Text} {z : Bool} (form : IsDate text z) :
    dateIsSentinel text = z := by
  unfold dateIsSentinel
  cases form with
  | infinity member => rw [if_pos member]
  | day date =>
    have finite : date.text ++ [] ∉ infinities := dateText_not_infinity date.y date.mo date.d []
    rw [List.append_nil] at finite
    rw [if_neg finite, reDate_day]
    rfl

/-! ## Timestamps -/

theorem checkTimeOfDay_ok {h mi s : Nat} {tag : Tag} :
    (∃ b, checkTimeOfDay (h, mi, s) tag = .ok b) ↔ h ≤ 23 ∧ mi ≤ 59 ∧ s ≤ 59 := by
  unfold checkTimeOfDay
  dsimp only
  split
  · exact iff_of_false nofun (by omega)
  · exact iff_of_true ⟨_, rfl⟩ (by omega)

theorem checkStamp_ok {tag : Tag} {text out : Text} {date clock : Nat × Nat × Nat} :
    checkStamp tag text date clock = .ok out ↔
      (∃ b, checkDateParts date tag = .ok b) ∧ (∃ b, checkTimeOfDay clock tag = .ok b) ∧
        out = text := by
  unfold checkStamp
  cases checkDateParts date tag with
  | error e => exact iff_of_false nofun fun all => by cases all.1.choose_spec
  | ok b =>
    change (checkTimeOfDay clock tag).map (fun _ => text) = .ok out ↔ _
    rw [map_eq_ok]
    exact ⟨fun both => ⟨⟨b, rfl⟩, both⟩, fun all => all.2⟩

theorem reStamp_iff {separator : UInt8} {ending : Text → Bool} {text : Text}
    {y mo d h mi s : Nat} :
    reStamp separator ending text = some ((y, mo, d), (h, mi, s)) ↔
      (y < 10 ^ 4 ∧ mo < 10 ^ 2 ∧ d < 10 ^ 2) ∧ (h < 10 ^ 2 ∧ mi < 10 ^ 2 ∧ s < 10 ^ 2) ∧
        ∃ (f : Option Nat) (rest : Text), (∀ k ∈ f, k < 10 ^ 6) ∧
          text = dateText y mo d ++ separator :: (clockText h mi s ++ (fractionText f ++ rest)) ∧
          ending rest = true := by
  unfold reStamp
  simp only [Option.bind_eq_bind, Option.bind_eq_some_iff, Prod.exists, dateGroups_iff,
    literal_iff, clockGroups_iff]
  constructor
  · rintro ⟨y', mo', d', s₁, ⟨day, rfl⟩, s₂, rfl, h', mi', s', s₃, ⟨clock, rfl⟩, same⟩
    split at same
    · rename_i ends
      cases same
      obtain ⟨f, rest, six, rfl, ended⟩ := fraction_iff.mp ends
      exact ⟨day, clock, f, rest, six, rfl, ended⟩
    · cases same
  · rintro ⟨day, clock, f, rest, six, rfl, ends⟩
    refine ⟨y, mo, d, _, ⟨day, rfl⟩, _, rfl, h, mi, s, _, ⟨clock, rfl⟩, if_pos ?_⟩
    exact fraction_iff.mpr ⟨f, rest, six, rfl, ends⟩

section

variable {separator : UInt8} {ending : Text → Bool} {tail : Text} {literals : List Text}

theorem reStamp_instant (ends : Ends ending tail) (date : Day) (clock : Clock) :
    reStamp separator ending (date.text ++ separator :: (clock.text ++ tail)) =
      some ((date.y, date.mo, date.d), (clock.h, clock.mi, clock.s)) := by
  have year := date.year
  have month := date.month
  have day := date.day
  have hour := clock.hour
  have minute := clock.minute
  have second := clock.second
  refine reStamp_iff.mpr ⟨by omega, by omega, clock.micros, tail, clock.sixDigits, ?_,
    (ends tail).mpr (.inl rfl)⟩
  unfold Day.text Clock.text
  rw [List.append_assoc]

/-- Behind the sentinels, a timestamp's validator accepts instants only. -/
theorem stamp_sound (ends : Ends ending tail) {tag : Tag} {text out : Text}
    (clean : NoNewline text) {date clock : Nat × Nat × Nat}
    (found : reStamp separator ending text = some (date, clock))
    (done : checkStamp tag text date clock = .ok out) :
    out = text ∧ ∃ z, IsStamp separator tail literals text z := by
  obtain ⟨y, mo, d⟩ := date
  obtain ⟨h, mi, s⟩ := clock
  obtain ⟨day, clock, f, rest, six, rfl, ended⟩ := reStamp_iff.mp found
  obtain ⟨date, time, same⟩ := checkStamp_ok.mp done
  obtain ⟨month, inMonth, real⟩ := (checkDateParts_ok (by omega)).mp date
  obtain ⟨hour, minute, second⟩ := checkTimeOfDay_ok.mp time
  have grouped : dateText y mo d ++ separator :: (clockText h mi s ++ (fractionText f ++ rest)) =
      (dateText y mo d ++ separator :: (clockText h mi s ++ fractionText f)) ++ rest := by
    simp only [List.append_assoc, List.cons_append]
  rw [grouped] at clean
  rw [ends_clean ends clean] at ended
  refine ⟨same, hasZero (y, mo, d), ?_⟩
  rw [ended, ← List.append_assoc (clockText h mi s)]
  exact .instant ⟨y, mo, d, by omega, month, inMonth, real⟩
    ⟨h, mi, s, f, hour, minute, second, six⟩

theorem checkStamp_instant (tag : Tag) (text : Text) (date : Day) (clock : Clock) :
    checkStamp tag text (date.y, date.mo, date.d) (clock.h, clock.mi, clock.s) = .ok text := by
  refine checkStamp_ok.mpr ⟨?_, ?_, rfl⟩
  · exact (checkDateParts_ok date.year).mpr ⟨date.month, date.day, date.real⟩
  · exact checkTimeOfDay_ok.mpr ⟨clock.hour, clock.minute, clock.second⟩

theorem reStamp_infinity {text : Text} (member : text ∈ infinities) :
    reStamp separator ending text = none := by
  cases found : reStamp separator ending text with
  | none => rfl
  | some m =>
    obtain ⟨⟨y, mo, d⟩, ⟨h, mi, s⟩⟩ := m
    obtain ⟨-, -, f, rest, -, rfl, -⟩ := reStamp_iff.mp found
    exact absurd member (dateText_not_infinity y mo d _)

/-- `timestampIsInstant` and `timestamptzIsInstant`. -/
theorem isInstant_eq (ends : Ends ending tail)
    (none : ∀ text ∈ literals, reStamp separator ending text = none) {text : Text} {z : Bool}
    (form : IsStamp separator tail literals text z) :
    ((reStamp separator ending text).any fun m => !hasZero m.1) = !z := by
  cases form with
  | infinity member =>
    rw [reStamp_infinity member]
    rfl
  | literal member =>
    rw [none text member]
    rfl
  | instant date clock =>
    rw [reStamp_instant ends]
    rfl

end

theorem timestamp_accepts {text : Text} {z : Bool} (form : IsTimestamp text z) :
    timestamp text = .ok text := by
  unfold timestamp
  by_cases infinite : text ∈ infinities
  · rw [if_pos infinite]
  rw [if_neg infinite]
  cases form with
  | infinity member => exact absurd member infinite
  | literal member => exact absurd member List.not_mem_nil
  | instant date clock =>
    rw [reTimestamp, reStamp_instant ends_dollar]
    exact checkStamp_instant .timestamp _ date clock

theorem timestamp_iff {text out : Text} (clean : NoNewline text) :
    timestamp text = .ok out ↔ out = text ∧ ∃ z, IsTimestamp text z := by
  constructor
  · intro done
    unfold timestamp at done
    by_cases infinite : text ∈ infinities
    · rw [if_pos infinite] at done
      exact ⟨(Except.ok.inj done).symm, true, .infinity infinite⟩
    rw [if_neg infinite] at done
    split at done
    · cases done
    · rename_i date clock found
      exact stamp_sound ends_dollar clean found done
  · rintro ⟨rfl, z, form⟩
    exact timestamp_accepts form

theorem timestamptz_accepts {text : Text} {z : Bool} (form : IsTimestamptz text z) :
    timestamptz text = .ok text := by
  unfold timestamptz
  by_cases sentinel : text ∈ infinities ∨ text = zeroDatetime
  · rw [if_pos sentinel]
  rw [if_neg sentinel]
  cases form with
  | infinity member => exact absurd (.inl member) sentinel
  | literal member => exact absurd (.inr (List.mem_singleton.mp member)) sentinel
  | instant date clock =>
    rw [reTimestamptz, reStamp_instant ends_zone]
    exact checkStamp_instant .timestamptz _ date clock

theorem timestamptz_iff {text out : Text} (clean : NoNewline text) :
    timestamptz text = .ok out ↔ out = text ∧ ∃ z, IsTimestamptz text z := by
  constructor
  · intro done
    unfold timestamptz at done
    by_cases sentinel : text ∈ infinities ∨ text = zeroDatetime
    · rw [if_pos sentinel] at done
      refine ⟨(Except.ok.inj done).symm, true, ?_⟩
      obtain infinite | rfl := sentinel
      · exact .infinity infinite
      · exact .literal (List.mem_singleton_self _)
    rw [if_neg sentinel] at done
    split at done
    · cases done
    · rename_i date clock found
      exact stamp_sound ends_zone clean found done
  · rintro ⟨rfl, z, form⟩
    exact timestamptz_accepts form

theorem timestampIsInstant_eq {text : Text} {z : Bool} (form : IsTimestamp text z) :
    timestampIsInstant text = !z :=
  isInstant_eq ends_dollar (fun _ member => absurd member List.not_mem_nil) form

theorem timestamptzIsInstant_eq {text : Text} {z : Bool} (form : IsTimestamptz text z) :
    timestamptzIsInstant text = !z := by
  refine isInstant_eq ends_zone ?_ form
  intro text member
  rw [List.mem_singleton.mp member]
  rfl

/-! ## Times -/

theorem skipMinus_sign {sign s : Text} (signed : sign = [] ∨ sign = [45])
    (first : ∃ b rest, s = b :: rest ∧ isDigit b = true) : skipMinus (sign ++ s) = s := by
  obtain rfl | rfl := signed
  · obtain ⟨b, rest, rfl, isOne⟩ := first
    have other : b ≠ 45 := by
      rintro rfl
      cases isOne
    rw [List.nil_append, skipMinus, if_neg other]
  · rfl

theorem skipMinus_cases (s : Text) : ∃ sign, (sign = [] ∨ sign = [45]) ∧ s = sign ++ skipMinus s := by
  cases s with
  | nil => exact ⟨[], .inl rfl, rfl⟩
  | cons c s =>
    by_cases minus : c = 45
    · refine ⟨[45], .inr rfl, ?_⟩
      rw [skipMinus, if_pos minus, minus]
      rfl
    · refine ⟨[], .inl rfl, ?_⟩
      rw [skipMinus, if_neg minus]
      rfl

theorem digitsFrom_iff {n : Nat} {s d rest : Text} :
    digitsFrom n s = some (d, rest) ↔
      n ≤ d.length ∧ Digits d ∧ (∀ b ∈ rest.head?, isDigit b = false) ∧ s = d ++ rest := by
  unfold digitsFrom
  constructor
  · intro found
    split at found
    · rename_i long
      cases found
      refine ⟨long, ?_, ?_, List.takeWhile_append_dropWhile.symm⟩
      · exact List.all_eq_true.mp List.all_takeWhile
      · intro b head
        have not := List.head?_dropWhile_not isDigit s
        rw [Option.mem_def.mp head] at not
        exact not
    · cases found
  · rintro ⟨long, all, stop, rfl⟩
    obtain ⟨taken, dropped⟩ := takeWhile_digits all stop
    rw [taken, dropped, if_pos long]

theorem reTime_iff {text : Text} {mi sec : Nat} :
    reTime text = some (mi, sec) ↔
      (mi < 10 ^ 2 ∧ sec < 10 ^ 2) ∧ ∃ (sign hours : Text) (f : Option Nat) (rest : Text),
        (sign = [] ∨ sign = [45]) ∧ Digits hours ∧ 2 ≤ hours.length ∧ (∀ k ∈ f, k < 10 ^ 6) ∧
          text = sign ++ (hours ++ (minuteText mi sec ++ (fractionText f ++ rest))) ∧
          dollar rest = true := by
  unfold reTime
  simp only [Option.bind_eq_bind, Option.bind_eq_some_iff, Prod.exists, digitsFrom_iff,
    minuteGroups_iff]
  constructor
  · rintro ⟨hours, s₁, ⟨long, all, -, split⟩, mi', sec', s₂, ⟨small, rfl⟩, same⟩
    split at same
    · rename_i ends
      cases same
      obtain ⟨sign, signed, whole⟩ := skipMinus_cases text
      obtain ⟨f, rest, six, rfl, ended⟩ := fraction_iff.mp ends
      refine ⟨small, sign, hours, f, rest, signed, all, long, six, ?_, ended⟩
      rw [← split]
      exact whole
    · cases same
  · rintro ⟨small, sign, hours, f, rest, signed, all, long, six, rfl, ended⟩
    have first : ∃ b tail, hours ++ (minuteText mi sec ++ (fractionText f ++ rest)) = b :: tail ∧
        isDigit b = true := by
      cases hours with
      | nil => cases long
      | cons b tail => exact ⟨b, _, rfl, all b List.mem_cons_self⟩
    rw [skipMinus_sign signed first]
    refine ⟨hours, _, ⟨long, all, ?_, rfl⟩, mi, sec, _, ⟨small, rfl⟩, if_pos ?_⟩
    · rintro _ ⟨⟩
      rfl
    · exact fraction_iff.mpr ⟨f, rest, six, rfl, ended⟩

theorem time_accepts {text : Text} (form : IsTime text) : time text = .ok text := by
  obtain ⟨sign, hours, mi, sec, f, signed, all, long, minute, second, six, rfl⟩ := form
  have found := reTime_iff.mpr ⟨⟨(by omega : mi < 10 ^ 2), (by omega : sec < 10 ^ 2)⟩, sign,
    hours, f, [], signed, all, long, six, rfl, rfl⟩
  rw [List.append_nil] at found
  unfold time
  rw [found]
  exact if_neg (by omega)

theorem time_iff {text out : Text} (clean : NoNewline text) :
    time text = .ok out ↔ out = text ∧ IsTime text := by
  constructor
  · intro done
    unfold time at done
    split at done
    · cases done
    · rename_i mi sec found
      split at done
      · cases done
      · rename_i inside
        obtain ⟨small, sign, hours, f, rest, signed, all, long, six, rfl, ended⟩ :=
          reTime_iff.mp found
        have grouped : sign ++ (hours ++ (minuteText mi sec ++ (fractionText f ++ rest))) =
            (sign ++ (hours ++ (minuteText mi sec ++ fractionText f))) ++ rest := by
          simp only [List.append_assoc]
        rw [grouped] at clean
        rw [ends_clean ends_dollar clean] at ended
        refine ⟨(Except.ok.inj done).symm, sign, hours, mi, sec, f, signed, all, long, by omega,
          by omega, six, ?_⟩
        rw [ended, List.append_nil]
  · rintro ⟨rfl, form⟩
    exact time_accepts form

/-! ## Decimals -/

theorem skipSign_sign {sign s : Text} (signed : sign = [] ∨ sign = [43] ∨ sign = [45])
    (number : ∃ b rest, s = b :: rest ∧ isDigit b = true) : skipSign (sign ++ s) = s := by
  obtain rfl | rfl | rfl := signed
  · obtain ⟨b, rest, rfl, isOne⟩ := number
    have other : ¬(b = 43 ∨ b = 45) := by
      rintro (rfl | rfl)
      · cases isOne
      · cases isOne
    rw [List.nil_append, skipSign, if_neg other]
  · rfl
  · rfl

theorem skipSign_cases (s : Text) :
    ∃ sign, (sign = [] ∨ sign = [43] ∨ sign = [45]) ∧ s = sign ++ skipSign s := by
  cases s with
  | nil => exact ⟨[], .inl rfl, rfl⟩
  | cons c s =>
    by_cases sign : c = 43 ∨ c = 45
    · refine ⟨[c], ?_, ?_⟩
      · obtain rfl | rfl := sign
        · exact .inr (.inl rfl)
        · exact .inr (.inr rfl)
      · rw [skipSign, if_pos sign]
        rfl
    · refine ⟨[], .inl rfl, ?_⟩
      rw [skipSign, if_neg sign]
      rfl

theorem number_iff {s : Text} : Number s ↔ 1 ≤ s.length ∧ Digits s := by
  unfold Number
  rw [← List.length_pos_iff]
  rfl

theorem number_head {s : Text} (number : Number s) (rest : Text) :
    ∃ b tail, s ++ rest = b :: tail ∧ isDigit b = true := by
  cases s with
  | nil => exact absurd rfl number.1
  | cons b tail => exact ⟨b, _, rfl, number.2 b List.mem_cons_self⟩

theorem dollar_head {rest : Text} (ends : dollar rest = true) :
    ∀ b ∈ rest.head?, isDigit b = false := by
  obtain rfl | rfl := dollar_iff.mp ends
  · exact fun _ member => by cases member
  · rintro _ ⟨⟩
    rfl

theorem reDecimal_iff {text : Text} :
    reDecimal text = true ↔
      ∃ sign int rest, (sign = [] ∨ sign = [43] ∨ sign = [45]) ∧ Number int ∧
        text = sign ++ (int ++ rest) ∧
        ((∃ frac tail, Number frac ∧ rest = 46 :: (frac ++ tail) ∧ dollar tail = true) ∨
          dollar rest = true) := by
  unfold reDecimal
  constructor
  · intro matched
    split at matched
    · cases matched
    · rename_i int rest found
      obtain ⟨long, all, -, split⟩ := digitsFrom_iff.mp found
      obtain ⟨sign, signed, whole⟩ := skipSign_cases text
      rw [split] at whole
      refine ⟨sign, int, rest, signed, number_iff.mpr ⟨long, all⟩, whole, ?_⟩
      rw [Bool.or_eq_true, Option.any_eq_true] at matched
      obtain ⟨⟨frac, tail⟩, point, ends⟩ | ends := matched
      · simp only [Option.bind_eq_some_iff, literal_iff, digitsFrom_iff] at point
        obtain ⟨s, rfl, longer, more, -, rfl⟩ := point
        exact .inl ⟨frac, tail, number_iff.mpr ⟨longer, more⟩, rfl, ends⟩
      · exact .inr ends
  · rintro ⟨sign, int, rest, signed, number, rfl, end_⟩
    have stop : ∀ b ∈ rest.head?, isDigit b = false := by
      obtain ⟨frac, tail, -, rfl, -⟩ | ends := end_
      · rintro _ ⟨⟩
        rfl
      · exact dollar_head ends
    obtain ⟨long, all⟩ := number_iff.mp number
    have found : digitsFrom 1 (skipSign (sign ++ (int ++ rest))) = some (int, rest) := by
      rw [skipSign_sign signed (number_head number rest)]
      exact digitsFrom_iff.mpr ⟨long, all, stop, rfl⟩
    rw [found]
    dsimp only
    rw [Bool.or_eq_true, Option.any_eq_true]
    obtain ⟨frac, tail, fracNumber, rfl, ends⟩ | ends := end_
    · refine .inl ⟨(frac, tail), ?_, ends⟩
      obtain ⟨longer, more⟩ := number_iff.mp fracNumber
      exact Option.bind_eq_some_iff.mpr
        ⟨_, literal_iff.mpr rfl, digitsFrom_iff.mpr ⟨longer, more, dollar_head ends, rfl⟩⟩
    · exact .inr ends

theorem decimal_accepts {text : Text} (form : IsDecimal text) :
    CanonicalText.decimal text = .ok text := by
  unfold CanonicalText.decimal
  by_cases special : text ∈ decimalSpecials
  · rw [if_pos special]
  rw [if_neg special]
  have matched : reDecimal text = true := by
    cases form with
    | special member => exact absurd member special
    | whole signed number =>
      exact reDecimal_iff.mpr ⟨_, _, [], signed, number, by rw [List.append_nil], .inr rfl⟩
    | point signed number fracNumber =>
      refine reDecimal_iff.mpr ⟨_, _, _, signed, number, rfl, .inl ⟨_, [], fracNumber, ?_, rfl⟩⟩
      rw [List.append_nil]
  rw [matched, if_neg (by decide)]

theorem decimal_iff {text out : Text} (clean : NoNewline text) :
    CanonicalText.decimal text = .ok out ↔ out = text ∧ IsDecimal text := by
  constructor
  · intro done
    unfold CanonicalText.decimal at done
    split_ifs at done with special refused
    · exact ⟨(Except.ok.inj done).symm, .special special⟩
    · rw [Bool.not_eq_false] at refused
      refine ⟨(Except.ok.inj done).symm, ?_⟩
      obtain ⟨sign, int, rest, signed, number, rfl, ⟨frac, tail, fracNumber, rfl, ends⟩ | ends⟩ :=
        reDecimal_iff.mp refused
      · have grouped : sign ++ (int ++ 46 :: (frac ++ tail)) =
            (sign ++ (int ++ 46 :: frac)) ++ tail := by
          simp only [List.append_assoc, List.cons_append]
        rw [grouped] at clean
        rw [(ends_clean ends_dollar clean).mp ends, List.append_nil]
        exact .point signed number fracNumber
      · rw [← List.append_assoc] at clean
        rw [(ends_clean ends_dollar clean).mp ends, List.append_nil]
        exact .whole signed number
  · rintro ⟨rfl, form⟩
    exact decimal_accepts form

end FerroEngine.CanonicalTextLaws
