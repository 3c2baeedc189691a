import FerroEngine.CanonicalTextAgreement

set_option autoImplicit false

/-! # PostgreSQL dates and times are rendered exactly

The day that `civil_from_pg_days` finds against the calendar's day numbers, and what the texts of
the three renderers tell apart.
-/

namespace FerroEngine.PgDateTime

open DecimalText CivilCalendar PgText CanonicalForms CanonicalTextAgreement

/-! ## The arithmetic of `i64` -/

/-- A result that an `i64` holds. -/
def i64 (n : Int) : Option Int :=
  if -2 ^ 63 ≤ n ∧ n < 2 ^ 63 then some n else none

/-- `civil_from_pg_days` with every operation checked. -/
def civilI64 (pgDays : Int) : Option (Int × Int × Int) := do
  let unix ← i64 (pgDays + pgEpochUnixDays)
  let z ← i64 (unix + 719468)
  let era ← i64 (z / 146097)
  let doe ← i64 (z % 146097)
  let q ← i64 (doe - doe / 1460)
  let q ← i64 (q + doe / 36524)
  let q ← i64 (q - doe / 146096)
  let yoe ← i64 (q / 365)
  let cycles ← i64 (era * 400)
  let y ← i64 (yoe + cycles)
  let years ← i64 (365 * yoe)
  let years ← i64 (years + yoe / 4)
  let years ← i64 (years - yoe / 100)
  let doy ← i64 (doe - years)
  let fifths ← i64 (5 * doy)
  let fifths ← i64 (fifths + 2)
  let mp ← i64 (fifths / 153)
  let months ← i64 (153 * mp)
  let months ← i64 (months + 2)
  let d ← i64 (doy - months / 5)
  let d ← i64 (d + 1)
  let m ← if mp < 10 then i64 (mp + 3) else i64 (mp - 9)
  let y ← if m ≤ 2 then i64 (y + 1) else some y
  return (y, m, d)

theorem i64_ok {n : Int} (low : -2 ^ 63 ≤ n) (high : n < 2 ^ 63) : i64 n = some n :=
  if_pos ⟨low, high⟩

theorem bind_i64 {α : Type} {n : Int} {f : Int → Option α} {a : α}
    (low : -2 ^ 63 ≤ n) (high : n < 2 ^ 63) (later : f n = some a) : (i64 n >>= f) = some a := by
  rw [i64_ok low high]
  exact later

/-- No operation overflows for the days of an `i32`, or of the microseconds of an `i64`. -/
theorem civilI64_eq {pgDays : Int} (low : -2 ^ 40 ≤ pgDays) (high : pgDays ≤ 2 ^ 40) :
    civilI64 pgDays = some (civilFromPgDays pgDays) := by
  have epoch : pgEpochUnixDays = 10957 := rfl
  unfold civilI64 civilFromPgDays
  dsimp only
  generalize span : pgDays + pgEpochUnixDays + 719468 = z
  have doeRange : 0 ≤ z % 146097 ∧ z % 146097 < 146097 := by omega
  have doy := dayOfYear_range doeRange.1 doeRange.2
  unfold dayOfYear yearOfEra at doy
  have eraRange : -2 ^ 40 ≤ z / 146097 ∧ z / 146097 ≤ 2 ^ 40 := by omega
  refine bind_i64 (by omega) (by omega) ?_
  rw [span]
  refine bind_i64 (by omega) (by omega) ?_
  refine bind_i64 (by omega) (by omega) ?_
  refine bind_i64 (by omega) (by omega) ?_
  generalize z % 146097 = doe at doeRange doy ⊢
  generalize z / 146097 = era at eraRange ⊢
  refine bind_i64 (by omega) (by omega) ?_
  refine bind_i64 (by omega) (by omega) ?_
  refine bind_i64 (by omega) (by omega) ?_
  refine bind_i64 (by omega) (by omega) ?_
  have yoeRange : 0 ≤ (doe - doe / 1460 + doe / 36524 - doe / 146096) / 365 ∧
      (doe - doe / 1460 + doe / 36524 - doe / 146096) / 365 ≤ 399 := by omega
  generalize (doe - doe / 1460 + doe / 36524 - doe / 146096) / 365 = yoe at yoeRange doy ⊢
  refine bind_i64 (by omega) (by omega) ?_
  refine bind_i64 (by omega) (by omega) ?_
  refine bind_i64 (by omega) (by omega) ?_
  refine bind_i64 (by omega) (by omega) ?_
  refine bind_i64 (by omega) (by omega) ?_
  refine bind_i64 (by omega) (by omega) ?_
  generalize doe - (365 * yoe + yoe / 4 - yoe / 100) = days at doy ⊢
  refine bind_i64 (by omega) (by omega) ?_
  refine bind_i64 (by omega) (by omega) ?_
  refine bind_i64 (by omega) (by omega) ?_
  have mpRange : 0 ≤ (5 * days + 2) / 153 ∧ (5 * days + 2) / 153 ≤ 11 := by omega
  generalize (5 * days + 2) / 153 = mp at mpRange ⊢
  refine bind_i64 (by omega) (by omega) ?_
  refine bind_i64 (by omega) (by omega) ?_
  refine bind_i64 (by omega) (by omega) ?_
  refine bind_i64 (by omega) (by omega) ?_
  by_cases march : mp < 10
  · simp only [if_pos march]
    refine bind_i64 (by omega) (by omega) ?_
    rw [if_neg (by omega), if_neg (by omega)]
    rfl
  · simp only [if_neg march]
    refine bind_i64 (by omega) (by omega) ?_
    rw [if_pos (by omega), if_pos (by omega)]
    exact bind_i64 (by omega) (by omega) rfl

/-! ## The day -/

/-- The days from the first of January 2000. -/
def pgDayNumber (y m d : Int) : Int :=
  dayNumber y m d - dayNumber 2000 1 1

theorem civilFromPgDays_number (pgDays : Int) :
    pgDayNumber (civilFromPgDays pgDays).1 (civilFromPgDays pgDays).2.1
      (civilFromPgDays pgDays).2.2 = pgDays := by
  have epoch : dayNumber 2000 1 1 = 730119 := by decide
  have unix : pgEpochUnixDays = 10957 := rfl
  have civil : dayNumber (civilFromPgDays pgDays).1 (civilFromPgDays pgDays).2.1
      (civilFromPgDays pgDays).2.2 = pgDays + pgEpochUnixDays + 719468 - 306 :=
    dayNumber_civil (pgDays + pgEpochUnixDays + 719468)
  unfold pgDayNumber
  omega

/-- The day of a number, in a year of four digits. -/
structure DayOf (days : Int) (y m d : Nat) : Prop where
  real : Exists y m d
  number : pgDayNumber y m d = days
  years : 1 ≤ y ∧ y ≤ 9999

theorem DayOf.small {days : Int} {y m d : Nat} (day : DayOf days y m d) :
    y < 10 ^ 4 ∧ m < 10 ^ 2 ∧ d < 10 ^ 2 := by
  obtain ⟨⟨month, inMonth⟩, -, years⟩ := day
  have days := daysInMonth_le y m
  omega

/-- `canonical_date` over the day of a number. -/
theorem canonicalDate_civil (what : What) (days : Int) :
    (∃ y m d, DayOf days y m d ∧
        canonicalDate what (civilFromPgDays days) = .ok (dateText y m d)) ∨
      ∃ y m d, Exists y m d ∧ pgDayNumber y m d = days ∧ ¬(1 ≤ y ∧ y ≤ 9999) ∧
        canonicalDate what (civilFromPgDays days) = .error (.year what y) := by
  have real := civilFromPgDays_exists days
  have number := civilFromPgDays_number days
  generalize civilFromPgDays days = date at real number ⊢
  obtain ⟨y, m, d⟩ := date
  dsimp only at real number
  by_cases years : 1 ≤ y ∧ y ≤ 9999
  · left
    obtain ⟨month, inMonth⟩ := real
    have last := daysInMonth_le y m
    obtain ⟨y, rfl⟩ := Int.eq_ofNat_of_zero_le (by omega : 0 ≤ y)
    obtain ⟨m, rfl⟩ := Int.eq_ofNat_of_zero_le (by omega : 0 ≤ m)
    obtain ⟨d, rfl⟩ := Int.eq_ofNat_of_zero_le (by omega : 0 ≤ d)
    refine ⟨y, m, d, ⟨⟨month, inMonth⟩, number, by omega⟩, ?_⟩
    unfold canonicalDate
    dsimp only
    rw [if_pos years, formatInt_nat, formatInt_nat, formatInt_nat, format_small (by omega),
      format_small (by omega), format_small (by omega)]
    rfl
  · exact .inr ⟨y, m, d, real, number, years, if_neg years⟩

/-! ## What a text tells -/

theorem dateText_inj {y m d y' m' d' : Nat} {rest rest' : Text}
    (small : y < 10 ^ 4 ∧ m < 10 ^ 2 ∧ d < 10 ^ 2)
    (small' : y' < 10 ^ 4 ∧ m' < 10 ^ 2 ∧ d' < 10 ^ 2)
    (same : dateText y m d ++ rest = dateText y' m' d' ++ rest') :
    (y = y' ∧ m = m' ∧ d = d') ∧ rest = rest' := by
  have first : CanonicalText.dateGroups (dateText y m d ++ rest) = some ((y, m, d), rest) :=
    dateGroups_iff.mpr ⟨small, rfl⟩
  have second : CanonicalText.dateGroups (dateText y' m' d' ++ rest') = some ((y', m', d'), rest') :=
    dateGroups_iff.mpr ⟨small', rfl⟩
  rw [same, second] at first
  simp only [Option.some.injEq, Prod.mk.injEq] at first
  obtain ⟨⟨rfl, rfl, rfl⟩, rfl⟩ := first
  exact ⟨⟨rfl, rfl, rfl⟩, rfl⟩

/-- A date's text leads to its number. -/
theorem DayOf.inj {days days' : Int} {y m d y' m' d' : Nat} {rest rest' : Text}
    (day : DayOf days y m d) (day' : DayOf days' y' m' d')
    (same : dateText y m d ++ rest = dateText y' m' d' ++ rest') :
    days = days' ∧ rest = rest' := by
  obtain ⟨⟨rfl, rfl, rfl⟩, rfl⟩ := dateText_inj day.small day'.small same
  exact ⟨day.number.symm.trans day'.number, rfl⟩

/-- A time of day whose fraction is written unless it is zero. -/
structure ClockOf (us : Nat) (clock : Clock) : Prop where
  micros : clock.micros = written (us % 1000000)
  total : (clock.h * 3600 + clock.mi * 60 + clock.s) * 1000000 + us % 1000000 = us

theorem fmtTimeOfDay_clockOf {us : Nat} (below : us < 86400000000) :
    ∃ clock, ClockOf us clock ∧ PgText.fmtTimeOfDay us = clock.text := by
  rw [pgFmtTimeOfDay_eq, fmtTimeOfDay_clock (by omega) (by omega) (by omega) (by omega)]
  refine ⟨_, ⟨rfl, ?_⟩, rfl⟩
  dsimp only
  omega

/-- There is one way to write a time of day. -/
theorem ClockOf.unique {us : Nat} {clock clock' : Clock} (time : ClockOf us clock)
    (time' : ClockOf us clock') : clock.text = clock'.text := by
  have total := time.total
  have total' := time'.total
  have minute := clock.minute
  have minute' := clock'.minute
  have second := clock.second
  have second' := clock'.second
  have hours : clock.h = clock'.h := by omega
  have minutes : clock.mi = clock'.mi := by omega
  have seconds : clock.s = clock'.s := by omega
  unfold Clock.text
  rw [time.micros, time'.micros, hours, minutes, seconds]

theorem written_inj {us us' : Nat} (same : written us = written us') : us = us' := by
  unfold written at same
  split_ifs at same with zero zero'
  · omega
  · exact Option.some.inj same

theorem fractionText_inj {f f' : Option Nat} (small : ∀ k ∈ f, k < 10 ^ 6)
    (small' : ∀ k ∈ f', k < 10 ^ 6) (same : fractionText f = fractionText f') : f = f' := by
  cases f with
  | none =>
    cases f' with
    | none => rfl
    | some k => cases same
  | some k =>
    cases f' with
    | none => cases same
    | some k' =>
      have values := congrArg value (List.cons.inj same).2
      rw [value_padded (small k rfl), value_padded (small' k' rfl)] at values
      rw [values]

theorem ClockOf.inj {us us' : Nat} {clock clock' : Clock} {ending : Text}
    (time : ClockOf us clock) (time' : ClockOf us' clock')
    (same : clock.text ++ ending = clock'.text ++ ending) : us = us' := by
  have texts := List.append_cancel_right same
  have groups (c : Clock) : CanonicalText.clockGroups c.text =
      some ((c.h, c.mi, c.s), fractionText c.micros) := by
    have hour := c.hour
    have minute := c.minute
    have second := c.second
    exact clockGroups_iff.mpr ⟨by omega, rfl⟩
  have found := groups clock
  rw [texts, groups clock'] at found
  simp only [Option.some.injEq, Prod.mk.injEq] at found
  obtain ⟨⟨hours, minutes, seconds⟩, fractions⟩ := found
  have parts := fractionText_inj clock'.sixDigits clock.sixDigits fractions
  rw [time.micros, time'.micros] at parts
  have rest := written_inj parts
  have total := time.total
  have total' := time'.total
  rw [hours, minutes, seconds] at total'
  omega

/-! ## The order of the texts -/

theorem padded_lt {width a b : Nat} (less : a < b) (small : b < 10 ^ width) (s t : Text) :
    padded width a ++ s < padded width b ++ t := by
  induction width generalizing a b s t with
  | zero =>
    rw [Nat.pow_zero] at small
    omega
  | succ width ih =>
    rw [Nat.pow_succ] at small
    rw [padded, padded, List.append_assoc, List.append_assoc]
    by_cases front : a / 10 < b / 10
    · exact ih front (by omega) _ _
    · have same : a / 10 = b / 10 := by omega
      rw [same]
      apply List.append_left_lt
      apply List.cons_lt_cons_iff.mpr
      left
      rw [UInt8.lt_iff_toNat_lt, digitByte_toNat (by omega), digitByte_toNat (by omega)]
      omega

theorem dateText_lt {y m d y' m' d' : Nat} (small' : y' < 10 ^ 4 ∧ m' < 10 ^ 2 ∧ d' < 10 ^ 2)
    (before : Before y m d y' m' d') : dateText y m d < dateText y' m' d' := by
  unfold dateText
  obtain year | ⟨year, month | ⟨month, day⟩⟩ := before
  · exact padded_lt (by omega) small'.1 _ _
  · have years : y = y' := by omega
    rw [years]
    apply List.append_left_lt
    exact List.cons_lt_cons_iff.mpr (.inr ⟨rfl, padded_lt (by omega) small'.2.1 _ _⟩)
  · have years : y = y' := by omega
    have months : m = m' := by omega
    rw [years, months]
    apply List.append_left_lt
    refine List.cons_lt_cons_iff.mpr (.inr ⟨rfl, ?_⟩)
    apply List.append_left_lt
    refine List.cons_lt_cons_iff.mpr (.inr ⟨rfl, ?_⟩)
    have last := padded_lt (by omega : d < d') small'.2.2 [] []
    rw [List.append_nil, List.append_nil] at last
    exact last

theorem DayOf.lt {days days' : Int} {y m d y' m' d' : Nat} (day : DayOf days y m d)
    (day' : DayOf days' y' m' d') (later : days < days') :
    dateText y m d < dateText y' m' d' := by
  apply dateText_lt day'.small
  apply before_of_dayNumber_lt day.real day'.real
  have number := day.number
  have number' := day'.number
  unfold pgDayNumber at number number'
  omega

/-! ## The renderers -/

theorem DayOf.unique {days : Int} {y m d : Nat} {y' m' d' : Int} (day : DayOf days y m d)
    (real : Exists y' m' d') (number : pgDayNumber y' m' d' = days) :
    (y : Int) = y' ∧ (m : Int) = m' ∧ (d : Int) = d' := by
  apply dayNumber_injective day.real real
  have own := day.number
  unfold pgDayNumber at own number
  omega

theorem canonicalDate_iff (what : What) (days : Int) (text : Text) :
    canonicalDate what (civilFromPgDays days) = .ok text ↔
      ∃ y m d, DayOf days y m d ∧ text = dateText y m d := by
  obtain ⟨y, m, d, day, done⟩ | ⟨y, m, d, real, number, years, done⟩ :=
    canonicalDate_civil what days
  · rw [done, Except.ok.injEq]
    constructor
    · intro same
      exact ⟨y, m, d, day, same.symm⟩
    · rintro ⟨y', m', d', day', rfl⟩
      have unique := day'.unique day.real day.number
      obtain ⟨rfl, rfl, rfl⟩ : y' = y ∧ m' = m ∧ d' = d := by omega
      rfl
  · rw [done]
    refine iff_of_false nofun ?_
    rintro ⟨y', m', d', day', -⟩
    have unique := day'.unique real number
    have own := day'.years
    omega

/-- A payload of days that is no infinity. -/
structure DatePayload (raw : Text) (days : Int) : Prop where
  read : readI32 .date raw = .ok days
  finite : days ≠ 2 ^ 31 - 1 ∧ days ≠ -2 ^ 31

/-- A payload of microseconds that is no infinity. -/
structure StampPayload (what : What) (raw : Text) (us : Int) : Prop where
  read : readI64 what raw = .ok us
  finite : us ≠ 2 ^ 63 - 1 ∧ us ≠ -2 ^ 63

theorem dateToText_iff {raw text : Text} {days : Int} (payload : DatePayload raw days) :
    dateToText raw = .ok text ↔ ∃ y m d, DayOf days y m d ∧ text = dateText y m d := by
  unfold dateToText
  rw [payload.read, Except.bind, if_neg payload.finite.1, if_neg payload.finite.2]
  exact canonicalDate_iff .date days text

/-- The parts of an instant's text. -/
structure InstantText (separator : UInt8) (ending : Text) (us : Int) (date text : Text) :
    Prop where
  day : ∃ y m d, DayOf (us / usPerDay) y m d ∧ date = dateText y m d
  time : ∃ clock, ClockOf (us % usPerDay).toNat clock ∧
    text = date ++ separator :: (clock.text ++ ending)

theorem stampToText_iff {what : What} {separator : UInt8} {ending raw text : Text} {us : Int}
    (payload : StampPayload what raw us) :
    stampToText what separator ending raw = .ok text ↔
      ∃ date, canonicalDate what (civilFromPgDays (us / usPerDay)) = .ok date ∧
        text = date ++ separator :: (PgText.fmtTimeOfDay (us % usPerDay) ++ ending) := by
  have finite : timestampSentinel us = none := by
    unfold timestampSentinel
    rw [if_neg payload.finite.1, if_neg payload.finite.2]
  unfold stampToText
  rw [payload.read, Except.bind, finite]
  unfold splitTimestamp
  cases canonicalDate what (civilFromPgDays (us / usPerDay)) with
  | error e => exact iff_of_false nofun (by rintro ⟨date, done, -⟩; cases done)
  | ok date =>
    constructor
    · intro done
      cases done
      exact ⟨date, rfl, rfl⟩
    · rintro ⟨_, ⟨⟩, rfl⟩
      rfl

theorem instantText_iff {separator : UInt8} {ending date text : Text} {us : Int} (what : What) :
    InstantText separator ending us date text ↔
      canonicalDate what (civilFromPgDays (us / usPerDay)) = .ok date ∧
        text = date ++ separator :: (PgText.fmtTimeOfDay (us % usPerDay) ++ ending) := by
  have range : 0 ≤ us % usPerDay ∧ us % usPerDay < 86400000000 := by
    unfold usPerDay
    omega
  have whole : ((us % usPerDay).toNat : Int) = us % usPerDay := by omega
  obtain ⟨clock, parts, shown⟩ := fmtTimeOfDay_clockOf (by omega : (us % usPerDay).toNat < 86400000000)
  rw [whole] at shown
  rw [canonicalDate_iff, shown]
  constructor
  · rintro ⟨day, clock', parts', rfl⟩
    exact ⟨day, by rw [parts'.unique parts]⟩
  · rintro ⟨day, rfl⟩
    exact ⟨day, clock, parts, rfl⟩

/-- What `date_to_text` prints, over every day count but the infinities. -/
structure DateExact : Prop where
  checked : ∀ days, -2 ^ 31 ≤ days → days < 2 ^ 31 →
    civilI64 days = some (civilFromPgDays days)
  prints : ∀ raw days text, DatePayload raw days →
    (dateToText raw = .ok text ↔ ∃ y m d, DayOf days y m d ∧ text = dateText y m d)
  apart : ∀ raw raw' days days' text, DatePayload raw days → DatePayload raw' days' →
    dateToText raw = .ok text → dateToText raw' = .ok text → days = days'
  ordered : ∀ raw raw' days days' text text', DatePayload raw days → DatePayload raw' days' →
    dateToText raw = .ok text → dateToText raw' = .ok text' → days < days' → text < text'

/-- What a timestamp's renderer prints, over every count of microseconds but the infinities. -/
structure StampExact (what : What) (separator : UInt8) (ending : Text)
    (render : Text → Except PoolError Text) : Prop where
  checked : ∀ us, -2 ^ 63 ≤ us → us < 2 ^ 63 →
    civilI64 (us / usPerDay) = some (civilFromPgDays (us / usPerDay))
  prints : ∀ raw us text, StampPayload what raw us →
    (render raw = .ok text ↔ ∃ date, InstantText separator ending us date text)
  apart : ∀ raw raw' us us' text, StampPayload what raw us → StampPayload what raw' us' →
    render raw = .ok text → render raw' = .ok text → us = us'
  ordered : ∀ raw raw' us us' text text', StampPayload what raw us → StampPayload what raw' us' →
    render raw = .ok text → render raw' = .ok text' → us / usPerDay < us' / usPerDay →
    text.take 10 < text'.take 10

theorem dateText_length (y m d : Nat) : (dateText y m d).length = 10 := by
  unfold dateText
  simp only [List.length_append, List.length_cons, padded_length]

theorem dateExact : DateExact where
  checked days low high := civilI64_eq (by omega) (by omega)
  prints raw days text payload := dateToText_iff payload
  apart raw raw' days days' text payload payload' done done' := by
    obtain ⟨y, m, d, day, rfl⟩ := (dateToText_iff payload).mp done
    obtain ⟨y', m', d', day', same⟩ := (dateToText_iff payload').mp done'
    have whole : dateText y m d ++ [] = dateText y' m' d' ++ [] := congrArg (· ++ []) same
    exact (day.inj day' whole).1
  ordered raw raw' days days' text text' payload payload' done done' later := by
    obtain ⟨y, m, d, day, rfl⟩ := (dateToText_iff payload).mp done
    obtain ⟨y', m', d', day', rfl⟩ := (dateToText_iff payload').mp done'
    exact day.lt day' later

theorem stampExact (what : What) (separator : UInt8) (ending : Text) :
    StampExact what separator ending (stampToText what separator ending) := by
  have prints (raw : Text) (us : Int) (text : Text) (payload : StampPayload what raw us) :
      stampToText what separator ending raw = .ok text ↔
        ∃ date, InstantText separator ending us date text := by
    simp only [stampToText_iff payload, instantText_iff what]
  constructor
  · intro us low high
    have days : -2 ^ 40 ≤ us / usPerDay ∧ us / usPerDay ≤ 2 ^ 40 := by
      unfold usPerDay
      omega
    exact civilI64_eq days.1 days.2
  · exact prints
  · intro raw raw' us us' text payload payload' done done'
    obtain ⟨date, ⟨y, m, d, day, rfl⟩, clock, time, rfl⟩ := (prints raw us text payload).mp done
    obtain ⟨date', ⟨y', m', d', day', rfl⟩, clock', time', same⟩ :=
      (prints raw' us' _ payload').mp done'
    obtain ⟨days, rest⟩ := day.inj day' same
    have micros := time.inj time' (List.cons.inj rest).2
    unfold usPerDay at days micros
    omega
  · intro raw raw' us us' text text' payload payload' done done' later
    obtain ⟨date, ⟨y, m, d, day, rfl⟩, clock, time, rfl⟩ := (prints raw us text payload).mp done
    obtain ⟨date', ⟨y', m', d', day', rfl⟩, clock', time', rfl⟩ :=
      (prints raw' us' text' payload').mp done'
    rw [List.take_left' (dateText_length y m d), List.take_left' (dateText_length y' m' d')]
    exact day.lt day' later

/-- Every count of days is the number of one day. -/
theorem pgDayNumber_unique (days : Int) :
    ∃! date : Int × Int × Int,
      Exists date.1 date.2.1 date.2.2 ∧ pgDayNumber date.1 date.2.1 date.2.2 = days := by
  have real := civilFromPgDays_exists days
  have number := civilFromPgDays_number days
  refine ⟨civilFromPgDays days, ⟨real, number⟩, ?_⟩
  rintro ⟨y, m, d⟩ ⟨other, same⟩
  dsimp only at other same
  unfold pgDayNumber at number same
  obtain ⟨years, months, day⟩ := dayNumber_injective other real (by omega)
  rw [years, months, day]

/-- The three renderers against the calendar. -/
theorem dateTimeToText_exact :
    (∀ days, ∃! date : Int × Int × Int,
        Exists date.1 date.2.1 date.2.2 ∧ pgDayNumber date.1 date.2.1 date.2.2 = days) ∧
      DateExact ∧ StampExact .timestamp 32 [] timestampToText ∧
      StampExact .timestamptz 84 [90] timestamptzToText :=
  ⟨pgDayNumber_unique, dateExact, stampExact .timestamp 32 [], stampExact .timestamptz 84 [90]⟩

end FerroEngine.PgDateTime
