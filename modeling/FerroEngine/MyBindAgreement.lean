import FerroEngine.CanonicalTextAgreement
import FerroEngine.MyBind

set_option autoImplicit false

/-! # The MySQL renderers against the MySQL binders -/

namespace FerroEngine.MyBindAgreement

open DecimalText CanonicalForms CanonicalTextAgreement MyText MyBind

/-! ## What a rendered text is -/

theorem canonicalDate_text {y mo d : Nat} (range : DateRange y mo d) :
    canonicalDate y mo d = dateText y mo d := by
  obtain ⟨year, month, day⟩ := range
  rw [canonicalDate, format_small (by omega), format_small (by omega), format_small (by omega)]
  rfl

theorem written_fraction {us : Nat} (small : us < 10 ^ 6) :
    Fraction us (fractionText (written us)) := by
  refine ⟨small, ?_⟩
  unfold written
  by_cases zero : us = 0
  · rw [if_pos zero]
    exact .inl ⟨zero, rfl⟩
  · rw [if_neg zero]
    exact .inr rfl

/-- Only a zero has a second spelling. -/
theorem fraction_written {us : Nat} {frac : Text} (fraction : Fraction us frac) :
    frac = fractionText (written us) ∨ us = 0 ∧ frac = 46 :: padded 6 0 := by
  obtain ⟨_, ⟨rfl, rfl⟩ | rfl⟩ := fraction
  · exact .inl rfl
  · unfold written
    by_cases zero : us = 0
    · rw [zero]
      exact .inr ⟨rfl, rfl⟩
    · rw [if_neg zero]
      exact .inl rfl

theorem clock_text {h mi sec us : Nat} (range : ClockRange h mi sec) (small : us < 10 ^ 6) :
    fmtTimeOfDay h mi sec us = clockText h mi sec ++ fractionText (written us) := by
  obtain ⟨hour, minute, second⟩ := range
  rw [fmtTimeOfDay_eq minute second small, format_small (by omega), clockText, List.append_assoc]

theorem checkTimeOfDay_ok {h mi sec us : Nat} (range : ClockRange h mi sec) (small : us < 10 ^ 6) :
    checkTimeOfDay h mi sec us = .ok () := by
  obtain ⟨hour, minute, second⟩ := range
  unfold checkTimeOfDay
  rw [if_neg (by omega)]

/-- The components that a parsed text is bound to are the ones that it was parsed from. -/
theorem dateParts_myDate {y mo d h mi sec us : Nat} (date : DateRange y mo d)
    (clock : ClockRange h mi sec) (small : us < 10 ^ 6) :
    dateParts (myDate (y, mo, d) (h, mi, sec, us)) = .ok ⟨y, mo, d, h, mi, sec, us⟩ := by
  obtain ⟨year, month, day⟩ := date
  obtain ⟨hour, minute, second⟩ := clock
  have y' : (UInt16.ofNat y).toNat = y := by rw [UInt16.toNat_ofNat']; omega
  have mo' : (UInt8.ofNat mo).toNat = mo := by rw [UInt8.toNat_ofNat']; omega
  have d' : (UInt8.ofNat d).toNat = d := by rw [UInt8.toNat_ofNat']; omega
  have h' : (UInt8.ofNat h).toNat = h := by rw [UInt8.toNat_ofNat']; omega
  have mi' : (UInt8.ofNat mi).toNat = mi := by rw [UInt8.toNat_ofNat']; omega
  have sec' : (UInt8.ofNat sec).toNat = sec := by rw [UInt8.toNat_ofNat']; omega
  have us' : (UInt32.ofNat us).toNat = us := by rw [UInt32.toNat_ofNat']; omega
  rw [myDate, dateParts]
  dsimp only
  rw [y', mo', d', h', mi', sec', us']

/-- A driver date is what its components are bound to. -/
theorem myDate_of_parts {v : MyValue} {p : Parts} (parts : dateParts v = .ok p) :
    v = myDate (p.year, p.month, p.day) (p.hour, p.minute, p.second, p.micros) := by
  cases v with
  | date y mo d h mi sec us =>
    rw [dateParts, Except.ok.injEq] at parts
    rw [← parts, myDate]
    simp only [UInt16.ofNat_toNat, UInt8.ofNat_toNat, UInt32.ofNat_toNat]
  | _ => cases parts

theorem parts_of_ok {α : Type} {v : MyValue} {f : Parts → Except BackendError α} {out : α}
    (done : (dateParts v).bind f = .ok out) : ∃ p, dateParts v = .ok p ∧ f p = .ok out := by
  cases parts : dateParts v with
  | error e =>
    rw [parts] at done
    cases done
  | ok p =>
    rw [parts] at done
    exact ⟨p, rfl, done⟩

/-! ## Dates and timestamps -/

/-- The components of a date that the renderers can put in their columns. -/
def InRange (v : MyValue) : Prop :=
  ∀ p, dateParts v = .ok p → DateRange p.year p.month p.day

theorem dateToText_iff {v : MyValue} {text : Text} (inside : InRange v) :
    dateToText v = .ok text ↔
      ∃ y mo d, DateRange y mo d ∧ v = myDate (y, mo, d) (0, 0, 0, 0) ∧ text = dateText y mo d := by
  constructor
  · intro done
    obtain ⟨p, parts, rest⟩ := parts_of_ok done
    split at rest
    · cases rest
    · rename_i clock
      simp only [ne_eq, Prod.mk.injEq, not_not] at clock
      obtain ⟨hour, minute, second, micros⟩ := clock
      have range := inside p parts
      have same := myDate_of_parts parts
      rw [hour, minute, second, micros] at same
      rw [canonicalDate_text range] at rest
      exact ⟨p.year, p.month, p.day, range, same, (Except.ok.inj rest).symm⟩
  · rintro ⟨y, mo, d, range, rfl, rfl⟩
    rw [dateToText, dateParts_myDate range ⟨by decide, by decide, by decide⟩ (by decide)]
    change Except.ok (canonicalDate y mo d) = _
    rw [canonicalDate_text range]

theorem datetimeToText_iff {v : MyValue} {text : Text} (inside : InRange v) :
    datetimeToText v = .ok text ↔
      ∃ y mo d h mi sec us, DateRange y mo d ∧ ClockRange h mi sec ∧ us < 10 ^ 6 ∧
        v = myDate (y, mo, d) (h, mi, sec, us) ∧
        text = dateText y mo d ++ 32 :: (clockText h mi sec ++ fractionText (written us)) := by
  constructor
  · intro done
    obtain ⟨p, parts, rest⟩ := parts_of_ok done
    obtain ⟨b, checked, rfl⟩ := map_ok_exists rest
    obtain ⟨hour, minute, second, micros⟩ := checkTimeOfDay_inside checked
    have range := inside p parts
    refine ⟨p.year, p.month, p.day, p.hour, p.minute, p.second, p.micros, range,
      ⟨hour, minute, second⟩, micros, myDate_of_parts parts, ?_⟩
    rw [canonicalDate_text range, clock_text ⟨hour, minute, second⟩ micros]
  · rintro ⟨y, mo, d, h, mi, sec, us, date, clock, small, rfl, rfl⟩
    rw [datetimeToText, dateParts_myDate date clock small]
    change (checkTimeOfDay h mi sec us).map _ = _
    rw [checkTimeOfDay_ok clock small, ← canonicalDate_text date, ← clock_text clock small]
    rfl

/-- The text of an instant. The zero of them has a form of its own. -/
def instantText (y mo d h mi sec us : Nat) : Text :=
  if Parts.mk y mo d h mi sec us = ⟨0, 0, 0, 0, 0, 0, 0⟩ then zeroDatetime
  else dateText y mo d ++ 84 :: (clockText h mi sec ++ fractionText (written us)) ++ [90]

theorem timestamptzToText_iff {v : MyValue} {text : Text} (inside : InRange v) :
    timestamptzToText v = .ok text ↔
      ∃ y mo d h mi sec us, DateRange y mo d ∧ ClockRange h mi sec ∧ us < 10 ^ 6 ∧
        v = myDate (y, mo, d) (h, mi, sec, us) ∧ text = instantText y mo d h mi sec us := by
  have same {y mo d h mi sec us : Nat} (date : DateRange y mo d) (clock : ClockRange h mi sec)
      (small : us < 10 ^ 6) :
      (if Parts.mk y mo d h mi sec us = ⟨0, 0, 0, 0, 0, 0, 0⟩ then zeroDatetime
        else canonicalDate y mo d ++ 84 :: (fmtTimeOfDay h mi sec us ++ [90])) =
        instantText y mo d h mi sec us := by
    rw [canonicalDate_text date, clock_text clock small, instantText]
    simp only [List.append_assoc, List.cons_append]
  constructor
  · intro done
    obtain ⟨p, parts, rest⟩ := parts_of_ok done
    obtain ⟨b, checked, rfl⟩ := map_ok_exists rest
    obtain ⟨hour, minute, second, micros⟩ := checkTimeOfDay_inside checked
    have range := inside p parts
    exact ⟨p.year, p.month, p.day, p.hour, p.minute, p.second, p.micros, range,
      ⟨hour, minute, second⟩, micros, myDate_of_parts parts,
      same range ⟨hour, minute, second⟩ micros⟩
  · rintro ⟨y, mo, d, h, mi, sec, us, date, clock, small, rfl, rfl⟩
    rw [timestamptzToText, dateParts_myDate date clock small]
    change (checkTimeOfDay h mi sec us).map _ = _
    rw [checkTimeOfDay_ok clock small, ← same date clock small]
    rfl

/-! ## Times -/

/-- A driver time of a count of hours and a rest. -/
def driverTime (neg : Bool) (hours mi sec us : Nat) : MyValue :=
  .time neg (.ofNat (hours / 24)) (.ofNat (hours % 24)) (.ofNat mi) (.ofNat sec) (.ofNat us)

/-- A count of hours, minutes, seconds and microseconds that is a `TIME`. -/
def TimeRange (hours mi sec us : Nat) : Prop :=
  hours ≤ 838 ∧ mi ≤ 59 ∧ sec ≤ 59 ∧ us < 10 ^ 6

/-- The sign of a time that is not zero. -/
def signed (neg : Bool) (hours mi sec us : Nat) : Bool :=
  neg && decide (¬(hours = 0 ∧ mi = 0 ∧ sec = 0 ∧ us = 0))

def timeText (neg : Bool) (hours mi sec us : Nat) : Text :=
  signText neg ++ (format 2 hours ++ (minuteText mi sec ++ fractionText (written us)))

theorem boundTime_eq (neg : Bool) (hours mi sec us : Nat) :
    boundTime neg hours mi sec us = driverTime (signed neg hours mi sec us) hours mi sec us := by
  have same : (hours * 3600 * usPerSecond + mi * 60 * usPerSecond + sec * usPerSecond + us ≠ 0) =
      ¬(hours = 0 ∧ mi = 0 ∧ sec = 0 ∧ us = 0) := by
    unfold usPerSecond
    rw [eq_iff_iff]
    omega
  rw [boundTime, driverTime, signed]
  simp only [same]

theorem saturate_add (a b : Nat) : saturate (saturate a + b) = saturate (a + b) := by
  unfold saturate
  omega

theorem saturate_micros (a : Nat) :
    saturate (saturate a * usPerSecond) = saturate (a * usPerSecond) := by
  unfold saturate usPerSecond
  omega

/-- The saturating sum is the sum, cut off above every `TIME`. -/
theorem saturate_sum (days h mi sec us : Nat) :
    saturate (saturate (saturate (saturate (saturate (saturate (days * 86400) * usPerSecond) +
        h * 3600 * usPerSecond) + mi * 60 * usPerSecond) + sec * usPerSecond) + us) =
      saturate (((days * 24 + h) * 3600 + mi * 60 + sec) * 1000000 + us) := by
  simp only [saturate_micros, saturate_add]
  refine congrArg saturate ?_
  unfold usPerSecond
  omega

theorem timeToText_driver {neg : Bool} {days : UInt32} {h mi sec : UInt8} {us : UInt32}
    {text : Text} :
    timeToText (.time neg days h mi sec us) = .ok text ↔
      (h.toNat ≤ 23 ∧ TimeRange (days.toNat * 24 + h.toNat) mi.toNat sec.toNat us.toNat) ∧
        text = timeText (signed neg (days.toNat * 24 + h.toNat) mi.toNat sec.toNat us.toNat)
          (days.toNat * 24 + h.toNat) mi.toNat sec.toNat us.toNat := by
  unfold timeToText
  dsimp only
  generalize h.toNat = h, mi.toNat = mi, sec.toNat = sec, us.toNat = us, days.toNat = days
  by_cases inside : ClockRange h mi sec ∧ us < 10 ^ 6
  · rw [checkTimeOfDay_ok inside.1 inside.2]
    obtain ⟨⟨hour, minute, second⟩, micros⟩ := inside
    rw [Except.bind, saturate_sum]
    by_cases small : days * 24 + h ≤ 838
    · have exact' : saturate (((days * 24 + h) * 3600 + mi * 60 + sec) * 1000000 + us) =
          ((days * 24 + h) * 3600 + mi * 60 + sec) * 1000000 + us := by
        unfold saturate
        omega
      rw [exact', if_neg (by unfold maxTimeUs; omega)]
      generalize days * 24 + h = hours at small ⊢
      have hours' : ((hours * 3600 + mi * 60 + sec) * 1000000 + us) / (3600 * usPerSecond) = hours := by
        unfold usPerSecond
        omega
      have mins' : ((hours * 3600 + mi * 60 + sec) * 1000000 + us) % (3600 * usPerSecond) /
          (60 * usPerSecond) = mi := by
        unfold usPerSecond
        omega
      have secs' : ((hours * 3600 + mi * 60 + sec) * 1000000 + us) % (60 * usPerSecond) /
          usPerSecond = sec := by
        unfold usPerSecond
        omega
      have frac' : ((hours * 3600 + mi * 60 + sec) * 1000000 + us) % usPerSecond = us := by
        unfold usPerSecond
        omega
      have sign : (if neg = true ∧ (hours * 3600 + mi * 60 + sec) * 1000000 + us ≠ 0 then [45]
          else []) = signText (signed neg hours mi sec us) := by
        have zero : ((hours * 3600 + mi * 60 + sec) * 1000000 + us ≠ 0) =
            ¬(hours = 0 ∧ mi = 0 ∧ sec = 0 ∧ us = 0) := by
          rw [eq_iff_iff]
          omega
        simp only [signText, signed, zero, Bool.and_eq_true, decide_eq_true_eq]
      rw [hours', mins', secs', frac', sign, fmtTimeOfDay_eq minute second micros, Except.ok.injEq]
      exact ⟨fun same => ⟨⟨hour, small, minute, second, micros⟩, same.symm⟩, fun both => both.2.symm⟩
    · have large : maxTimeUs <
          saturate (((days * 24 + h) * 3600 + mi * 60 + sec) * 1000000 + us) := by
        unfold saturate maxTimeUs
        omega
      rw [if_pos large]
      exact ⟨nofun, fun both => absurd both.1.2.1 small⟩
  · cases checked : checkTimeOfDay h mi sec us with
    | error e => exact ⟨nofun, fun both => absurd ⟨⟨both.1.1, both.1.2.2.1, both.1.2.2.2.1⟩,
        both.1.2.2.2.2⟩ inside⟩
    | ok b =>
      obtain ⟨hour, minute, second, micros⟩ := checkTimeOfDay_inside checked
      exact absurd ⟨⟨hour, minute, second⟩, micros⟩ inside

theorem timeToText_iff {v : MyValue} {text : Text} :
    timeToText v = .ok text ↔
      ∃ neg hours mi sec us, TimeRange hours mi sec us ∧ v = driverTime neg hours mi sec us ∧
        text = timeText (signed neg hours mi sec us) hours mi sec us := by
  constructor
  · intro done
    cases v with
    | time neg days h mi sec us =>
      obtain ⟨⟨hour, range⟩, rfl⟩ := timeToText_driver.mp done
      refine ⟨neg, _, _, _, _, range, ?_, rfl⟩
      have quotient : (days.toNat * 24 + h.toNat) / 24 = days.toNat := by omega
      have remainder : (days.toNat * 24 + h.toNat) % 24 = h.toNat := by omega
      rw [driverTime, quotient, remainder]
      simp only [UInt8.ofNat_toNat, UInt32.ofNat_toNat]
    | _ => cases done
  · rintro ⟨neg, hours, mi, sec, us, range, rfl, rfl⟩
    obtain ⟨small, minute, second, micros⟩ := range
    have days' : (UInt32.ofNat (hours / 24)).toNat = hours / 24 := by
      rw [UInt32.toNat_ofNat']
      omega
    have h' : (UInt8.ofNat (hours % 24)).toNat = hours % 24 := by rw [UInt8.toNat_ofNat']; omega
    have mi' : (UInt8.ofNat mi).toNat = mi := by rw [UInt8.toNat_ofNat']; omega
    have sec' : (UInt8.ofNat sec).toNat = sec := by rw [UInt8.toNat_ofNat']; omega
    have us' : (UInt32.ofNat us).toNat = us := by rw [UInt32.toNat_ofNat']; omega
    have whole : hours / 24 * 24 + hours % 24 = hours := by omega
    rw [driverTime, timeToText_driver, days', h', mi', sec', us', whole]
    exact ⟨⟨by omega, small, minute, second, micros⟩, rfl⟩

/-! ## Hour fields -/

/-- Two digits, or three without a leading zero. -/
def PlainHours (hh : Text) : Prop :=
  hh.length = 2 ∨ hh.length = 3 ∧ hh.head? ≠ some 48

theorem hourField_format {hours : Nat} (small : hours ≤ 838) :
    HourField (format 2 hours) ∧ value (format 2 hours) = hours := by
  obtain ⟨all, long⟩ := format_hours hours
  have back : value (format 2 hours) = hours := by
    unfold format
    split
    · rename_i two
      exact value_padded two
    · exact value_decimal hours
  have short : (format 2 hours).length ≤ 3 := by
    unfold format
    split
    · rw [padded_length]
      omega
    · exact decimal_length (by omega)
  refine ⟨⟨all, ?_, short, by omega⟩, back⟩
  rintro empty
  rw [empty] at long
  cases long

/-- The plain fields are the ones that are written. -/
theorem plainHours_iff {hh : Text} (field : HourField hh) :
    PlainHours hh ↔ hh = format 2 (value hh) := by
  have bound := value_lt hh
  have short := field.short
  have some_ : hh.length ≠ 0 := fun empty => field.some_ (List.length_eq_zero_iff.mp empty)
  constructor
  · rintro (two | ⟨three, leading⟩)
    · rw [two] at bound
      rw [format_small bound]
      have back := padded_value field.digits
      rw [two] at back
      exact back.symm
    · cases hh with
      | nil => cases three
      | cons b hh =>
        have first : b ≠ 48 := by
          rintro rfl
          exact leading rfl
        rw [List.length_cons] at three
        have large := le_value (s := hh) (field.digits b List.mem_cons_self) first
        have width : hh.length = 2 := by omega
        rw [width] at large
        rw [format, if_neg (by omega)]
        exact (decimal_value ⟨field.digits, List.cons_ne_nil _ _, fun zero => absurd zero leading⟩).symm
  · intro same
    have long := (format_hours (value hh)).2
    rw [← same] at long
    by_cases two : hh.length = 2
    · exact .inl two
    · refine .inr ⟨by omega, fun zero => two ?_⟩
      cases hh with
      | nil => cases zero
      | cons b rest =>
        have first : b = 48 := Option.some.inj zero
        have tail := value_lt rest
        rw [List.length_cons] at short two long
        have width : rest.length = 2 := by omega
        have small : value (b :: rest) < 10 ^ 2 := by
          have nothing : digit 48 = 0 := rfl
          rw [value_cons, first, nothing, Nat.zero_mul, Nat.zero_add, ← width]
          exact tail
        rw [format_small small] at same
        rw [same, padded_length]

/-- A text of a time has one sign, one hour field and one fraction. -/
theorem time_parts {neg neg' : Bool} {hh hh' frac frac' : Text} {mi mi' sec sec' : Nat}
    (field : HourField hh) (field' : HourField hh')
    (same : signText neg ++ (hh ++ (minuteText mi sec ++ frac)) =
      signText neg' ++ (hh' ++ (minuteText mi' sec' ++ frac'))) :
    neg = neg' ∧ hh = hh' ∧ frac = frac' := by
  have stripped := congrArg stripMinus same
  rw [stripMinus_sign field, stripMinus_sign field', Prod.mk.injEq] at stripped
  obtain ⟨sign, rest⟩ := stripped
  have clean {hh : Text} (field : HourField hh) : (58 : UInt8) ∉ hh :=
    digits_no_point field.digits (by decide)
  have split {hh : Text} (field : HourField hh) (mi sec : Nat) (frac : Text) :
      splitAt 58 (hh ++ (minuteText mi sec ++ frac)) =
        some (hh, padded 2 mi ++ (58 :: padded 2 sec) ++ frac) :=
    splitAt_append (clean field) _
  have halves := congrArg (splitAt 58) rest
  rw [split field, split field', Option.some.injEq, Prod.mk.injEq] at halves
  refine ⟨sign, halves.1, (List.append_inj halves.2 ?_).2⟩
  simp only [List.length_append, List.length_cons, padded_length]

/-! ## Agreement -/

/-- The four temporal tags. -/
inductive Temporal where
  | date
  | time
  | timestamp
  | timestamptz
  deriving DecidableEq, Repr

def Temporal.render : Temporal → MyValue → Except BackendError Text
  | .date => dateToText
  | .time => timeToText
  | .timestamp => datetimeToText
  | .timestamptz => timestamptzToText

def Temporal.parse : Temporal → Text → Option MyValue
  | .date => parseDate
  | .time => parseTime
  | .timestamp => parseDatetime
  | .timestamptz => parseRfc3339Utc

/-- A negative zero becomes unsigned. -/
def unsignedZero : MyValue → MyValue
  | .time neg days h mi s us =>
    .time (neg && decide (¬(days = 0 ∧ h = 0 ∧ mi = 0 ∧ s = 0 ∧ us = 0))) days h mi s us
  | v => v

def zeroTime : MyValue :=
  .time false 0 0 0 0 0

/-- The text is the one that is rendered for the value, up to the sign of a zero time. -/
def Canonical (tag : Temporal) (s : Text) (v : MyValue) : Prop :=
  tag.render v = .ok s ∨
    tag = .time ∧ v = zeroTime ∧ ∃ rest, s = 45 :: rest ∧ tag.render v = .ok rest

/-- A fraction group of six zeros. -/
def zeroFraction : Text :=
  46 :: padded 6 0

/-- Well formed texts that no renderer writes. -/
inductive OtherSpelling : Temporal → Text → Prop
  | timestamp {y mo d h mi sec : Nat} : DateRange y mo d → ClockRange h mi sec →
      OtherSpelling .timestamp (dateText y mo d ++ 32 :: (clockText h mi sec ++ zeroFraction))
  | timestamptz {y mo d h mi sec : Nat} : DateRange y mo d → ClockRange h mi sec →
      OtherSpelling .timestamptz
        (dateText y mo d ++ 84 :: (clockText h mi sec ++ zeroFraction) ++ [90])
  /-- `0000-00-00T00:00:00Z`, next to the sentinel. -/
  | zeroInstant : OtherSpelling .timestamptz (dateText 0 0 0 ++ 84 :: clockText 0 0 0 ++ [90])
  | time {neg : Bool} {hh frac : Text} {mi sec us : Nat} : HourField hh → mi ≤ 59 → sec ≤ 59 →
      Fraction us frac → ¬PlainHours hh ∨ frac = zeroFraction →
      OtherSpelling .time (signText neg ++ (hh ++ (minuteText mi sec ++ frac)))

theorem unsignedZero_date (date : Nat × Nat × Nat) (time : Nat × Nat × Nat × Nat) :
    unsignedZero (myDate date time) = myDate date time :=
  rfl

theorem uint8_zero {n : Nat} (small : n < 256) : UInt8.ofNat n = 0 ↔ n = 0 := by
  rw [← UInt8.toNat_inj, UInt8.toNat_ofNat', Nat.mod_eq_of_lt small]
  rfl

theorem uint32_zero {n : Nat} (small : n < 4294967296) : UInt32.ofNat n = 0 ↔ n = 0 := by
  rw [← UInt32.toNat_inj, UInt32.toNat_ofNat', Nat.mod_eq_of_lt small]
  rfl

theorem unsignedZero_time {hours mi sec us : Nat} (neg : Bool) (range : TimeRange hours mi sec us) :
    unsignedZero (driverTime neg hours mi sec us) =
      driverTime (signed neg hours mi sec us) hours mi sec us := by
  obtain ⟨small, minute, second, micros⟩ := range
  have zero : (UInt32.ofNat (hours / 24) = 0 ∧ UInt8.ofNat (hours % 24) = 0 ∧ UInt8.ofNat mi = 0 ∧
      UInt8.ofNat sec = 0 ∧ UInt32.ofNat us = 0) = (hours = 0 ∧ mi = 0 ∧ sec = 0 ∧ us = 0) := by
    rw [uint32_zero (by omega), uint8_zero (by omega), uint8_zero (by omega),
      uint8_zero (by omega), uint32_zero (by omega), eq_iff_iff]
    omega
  rw [driverTime, unsignedZero, driverTime, signed]
  simp only [zero]

theorem signed_signed (neg : Bool) (hours mi sec us : Nat) :
    signed (signed neg hours mi sec us) hours mi sec us = signed neg hours mi sec us := by
  rw [signed, signed, Bool.and_assoc, Bool.and_self]

theorem parseDatetime_iff {s : Text} {v : MyValue} :
    parseDatetime s = some v ↔
      ∃ y mo d h mi sec us frac, DateRange y mo d ∧ ClockRange h mi sec ∧ Fraction us frac ∧
        s = dateText y mo d ++ 32 :: (clockText h mi sec ++ frac) ∧
        v = myDate (y, mo, d) (h, mi, sec, us) :=
  splitDateAndTime_iff

/-- What is rendered is bound to the value that it was rendered from. -/
theorem parse_render {tag : Temporal} {v : MyValue} {text : Text} (inside : InRange v)
    (done : tag.render v = .ok text) : tag.parse text = some (unsignedZero v) := by
  cases tag with
  | date =>
    obtain ⟨y, mo, d, range, rfl, rfl⟩ := (dateToText_iff inside).mp done
    exact parseDate_iff.mpr ⟨y, mo, d, range, rfl, rfl⟩
  | timestamp =>
    obtain ⟨y, mo, d, h, mi, sec, us, date, clock, small, rfl, rfl⟩ :=
      (datetimeToText_iff inside).mp done
    exact parseDatetime_iff.mpr ⟨y, mo, d, h, mi, sec, us, _, date, clock, written_fraction small,
      rfl, rfl⟩
  | timestamptz =>
    obtain ⟨y, mo, d, h, mi, sec, us, date, clock, small, rfl, rfl⟩ :=
      (timestamptzToText_iff inside).mp done
    refine parseRfc3339Utc_iff.mpr ?_
    unfold instantText
    by_cases zero : Parts.mk y mo d h mi sec us = ⟨0, 0, 0, 0, 0, 0, 0⟩
    · rw [if_pos zero]
      cases zero
      exact .inl ⟨rfl, rfl⟩
    · rw [if_neg zero]
      exact .inr ⟨y, mo, d, h, mi, sec, us, _, date, clock, written_fraction small, rfl, rfl⟩
  | time =>
    obtain ⟨neg, hours, mi, sec, us, range, rfl, rfl⟩ := timeToText_iff.mp done
    obtain ⟨field, back⟩ := hourField_format range.1
    have bound := boundTime_eq (signed neg hours mi sec us) hours mi sec us
    rw [signed_signed] at bound
    refine parseTime_iff.mpr ⟨signed neg hours mi sec us, format 2 hours, mi, sec, us, _, field,
      ⟨range.2.1, range.2.2.1⟩, written_fraction range.2.2.2, rfl, ?_⟩
    rw [back, bound, unsignedZero_time neg range]

/-! ## The converse -/

theorem inRange_myDate {y mo d h mi sec us : Nat} (date : DateRange y mo d)
    (clock : ClockRange h mi sec) (small : us < 10 ^ 6) :
    InRange (myDate (y, mo, d) (h, mi, sec, us)) := by
  intro p parts
  rw [dateParts_myDate date clock small, Except.ok.injEq] at parts
  rw [← parts]
  exact date

theorem midnight : ClockRange 0 0 0 :=
  ⟨by decide, by decide, by decide⟩

theorem date_canonical {s : Text} {v : MyValue} (done : parseDate s = some v) :
    dateToText v = .ok s := by
  obtain ⟨y, mo, d, range, rfl, rfl⟩ := parseDate_iff.mp done
  have inside := @inRange_myDate _ _ _ _ _ _ 0 range midnight (by decide)
  exact (dateToText_iff inside).mpr ⟨y, mo, d, range, rfl, rfl⟩

theorem datetime_render {y mo d h mi sec us : Nat} (date : DateRange y mo d)
    (clock : ClockRange h mi sec) (small : us < 10 ^ 6) :
    datetimeToText (myDate (y, mo, d) (h, mi, sec, us)) =
      .ok (dateText y mo d ++ 32 :: (clockText h mi sec ++ fractionText (written us))) :=
  (datetimeToText_iff (inRange_myDate date clock small)).mpr
    ⟨y, mo, d, h, mi, sec, us, date, clock, small, rfl, rfl⟩

theorem timestamptz_render {y mo d h mi sec us : Nat} (date : DateRange y mo d)
    (clock : ClockRange h mi sec) (small : us < 10 ^ 6) :
    timestamptzToText (myDate (y, mo, d) (h, mi, sec, us)) = .ok (instantText y mo d h mi sec us) :=
  (timestamptzToText_iff (inRange_myDate date clock small)).mpr
    ⟨y, mo, d, h, mi, sec, us, date, clock, small, rfl, rfl⟩

theorem time_render {neg : Bool} {hours mi sec us : Nat} (range : TimeRange hours mi sec us) :
    timeToText (boundTime neg hours mi sec us) =
      .ok (timeText (signed neg hours mi sec us) hours mi sec us) := by
  have done := timeToText_iff.mpr
    ⟨signed neg hours mi sec us, hours, mi, sec, us, range, rfl, @rfl _ (timeText _ _ _ _ _)⟩
  rw [signed_signed] at done
  rw [boundTime_eq]
  exact done

theorem instantText_end (y mo d h mi sec us : Nat) (front : Text)
    (same : instantText y mo d h mi sec us = front ++ [90]) :
    front = dateText y mo d ++ 84 :: (clockText h mi sec ++ fractionText (written us)) := by
  unfold instantText at same
  split at same
  · have last := congrArg List.getLast? same
    rw [List.getLast?_append] at last
    cases last
  · exact (List.append_cancel_right same).symm

/-- No group of six zeros is written. -/
theorem written_ne {us : Nat} (small : us < 10 ^ 6) : fractionText (written us) ≠ zeroFraction := by
  unfold written
  by_cases zero : us = 0
  · rw [if_pos zero]
    exact (List.cons_ne_nil _ _).symm
  · rw [if_neg zero]
    intro same
    have number := congrArg value (List.cons.inj same).2
    rw [value_padded small, value_padded (by decide)] at number
    exact zero number

theorem not_canonical {tag : Temporal} {s : Text} (other : OtherSpelling tag s) :
    ∃ v, tag.parse s = some v ∧ ¬Canonical tag s v := by
  have zero : Fraction 0 zeroFraction := ⟨by decide, .inr rfl⟩
  cases other with
  | @timestamp y mo d h mi sec date clock =>
    refine ⟨_, parseDatetime_iff.mpr ⟨y, mo, d, h, mi, sec, 0, _, date, clock, zero, rfl, rfl⟩, ?_⟩
    rintro (done | ⟨tag, _⟩)
    · change datetimeToText _ = _ at done
      rw [datetime_render date clock (by decide), Except.ok.injEq] at done
      have rest := List.append_cancel_left (List.cons.inj (List.append_cancel_left done)).2
      exact written_ne (by decide) rest
    · cases tag
  | @timestamptz y mo d h mi sec date clock =>
    refine ⟨_, parseRfc3339Utc_iff.mpr
      (.inr ⟨y, mo, d, h, mi, sec, 0, _, date, clock, zero, rfl, rfl⟩), ?_⟩
    rintro (done | ⟨tag, _⟩)
    · change timestamptzToText _ = _ at done
      rw [timestamptz_render date clock (by decide), Except.ok.injEq] at done
      have front := instantText_end _ _ _ _ _ _ _ _ done
      have rest := List.append_cancel_left (List.cons.inj (List.append_cancel_left front)).2
      exact written_ne (by decide) rest.symm
    · cases tag
  | zeroInstant =>
    have date : DateRange 0 0 0 := ⟨by decide, by decide, by decide⟩
    have clock : ClockRange 0 0 0 := ⟨by decide, by decide, by decide⟩
    refine ⟨_, parseRfc3339Utc_iff.mpr
      (.inr ⟨0, 0, 0, 0, 0, 0, 0, [], date, clock, ⟨by decide, .inl ⟨rfl, rfl⟩⟩, ?_, rfl⟩), ?_⟩
    · rw [List.append_nil]
    · rintro (done | ⟨tag, _⟩)
      · change timestamptzToText _ = _ at done
        rw [timestamptz_render date clock (by decide), Except.ok.injEq] at done
        have last := congrArg List.getLast? done
        rw [List.getLast?_append] at last
        cases last
      · cases tag
  | @time neg hh frac mi sec us field minute second fraction bad =>
    have range : TimeRange (value hh) mi sec us := ⟨field.small, minute, second, fraction.1⟩
    have field' := (hourField_format field.small).1
    refine ⟨_, parseTime_iff.mpr
      ⟨neg, hh, mi, sec, us, frac, field, ⟨minute, second⟩, fraction, rfl, rfl⟩, ?_⟩
    have plain {neg' : Bool} (same : signText neg ++ (hh ++ (minuteText mi sec ++ frac)) =
        timeText neg' (value hh) mi sec us) : False := by
      obtain ⟨_, hours, group⟩ := time_parts field field' same
      rcases bad with notPlain | zeros
      · exact notPlain ((plainHours_iff field).mpr hours)
      · rw [group] at zeros
        exact written_ne fraction.1 zeros
    rintro (done | ⟨_, zeroes, rest, text, done⟩)
    · rw [Temporal.render, time_render range, Except.ok.injEq] at done
      exact plain done.symm
    · rw [boundTime_eq, driverTime, zeroTime, MyValue.time.injEq] at zeroes
      rw [Temporal.render, time_render range, Except.ok.injEq, zeroes.1] at done
      rw [← done] at text
      exact @plain true text

theorem canonical_iff (tag : Temporal) (s : Text) :
    (∀ v, tag.parse s = some v → Canonical tag s v) ↔ ¬OtherSpelling tag s := by
  constructor
  · intro all other
    obtain ⟨v, parsed, refused⟩ := not_canonical other
    exact refused (all v parsed)
  · intro plain v parsed
    cases tag with
    | date => exact .inl (date_canonical parsed)
    | timestamp =>
      obtain ⟨y, mo, d, h, mi, sec, us, frac, date, clock, fraction, rfl, rfl⟩ :=
        parseDatetime_iff.mp parsed
      rcases fraction_written fraction with rfl | ⟨_, rfl⟩
      · exact .inl (datetime_render date clock fraction.1)
      · exact absurd (.timestamp date clock) plain
    | timestamptz =>
      obtain ⟨rfl, rfl⟩ | ⟨y, mo, d, h, mi, sec, us, frac, date, clock, fraction, rfl, rfl⟩ :=
        parseRfc3339Utc_iff.mp parsed
      · exact .inl rfl
      · rcases fraction_written fraction with rfl | ⟨_, rfl⟩
        · have done := timestamptz_render date clock fraction.1
          by_cases zero : Parts.mk y mo d h mi sec us = ⟨0, 0, 0, 0, 0, 0, 0⟩
          · cases zero
            exact absurd .zeroInstant plain
          · rw [instantText, if_neg zero] at done
            exact .inl done
        · exact absurd (.timestamptz date clock) plain
    | time =>
      obtain ⟨neg, hh, mi, sec, us, frac, field, ⟨minute, second⟩, fraction, rfl, rfl⟩ :=
        parseTime_iff.mp parsed
      have range : TimeRange (value hh) mi sec us := ⟨field.small, minute, second, fraction.1⟩
      have spelling (bad : ¬PlainHours hh ∨ frac = zeroFraction) : False :=
        plain (.time field minute second fraction bad)
      rcases fraction_written fraction with rfl | ⟨_, rfl⟩
      · have hours : hh = format 2 (value hh) := by
          by_contra other
          exact spelling (.inl (mt (plainHours_iff field).mp other))
        have done := @time_render neg _ _ _ _ range
        have text : signText neg ++ (hh ++ (minuteText mi sec ++ fractionText (written us))) =
            timeText neg (value hh) mi sec us := by
          rw [timeText, ← hours]
        rw [text]
        by_cases zero : value hh = 0 ∧ mi = 0 ∧ sec = 0 ∧ us = 0
        · have unsigned : signed neg (value hh) mi sec us = false := by
            rw [signed, decide_eq_false (not_not.mpr zero), Bool.and_false]
          rw [unsigned] at done
          cases neg with
          | false => exact .inl done
          | true =>
            refine .inr ⟨rfl, ?_, _, rfl, done⟩
            rw [boundTime_eq, unsigned, zero.1, zero.2.1, zero.2.2.1, zero.2.2.2]
            rfl
        · have same : signed neg (value hh) mi sec us = neg := by
            rw [signed, decide_eq_true zero, Bool.and_true]
          rw [same] at done
          exact .inl done
      · exact absurd (.inr rfl) spelling

/-! ## Decimals -/

/-- The bytes of a `str`. -/
def IsStr (s : Text) : Prop :=
  (String.fromUTF8? s.toByteArray).isSome = true

theorem decimalShape_iff (s : Text) :
    isDecimalText s = true ↔
      ¬(digitsOk (splitOnce (stripSign s)).1 = false ∨
        (splitOnce (stripSign s)).2.any (fun f => !digitsOk f) = true) := by
  rw [isDecimalText]
  dsimp only
  rw [not_or, Bool.not_eq_false, Bool.and_eq_true]
  cases (splitOnce (stripSign s)).2 with
  | none => simp
  | some f => simp

theorem decimalToText_iff {v : MyValue} {text : Text} :
    decimalToText v = .ok text ↔ v = .bytes text ∧ IsStr text ∧ isDecimalText text = true := by
  cases v with
  | bytes raw =>
    rw [decimalToText, MyValue.bytes.injEq]
    dsimp only
    constructor
    · intro done
      split at done
      · cases done
      · rename_i str
        split at done
        · cases done
        · rename_i shape
          cases done
          rw [← Option.not_isSome, Bool.not_eq_true', Bool.not_eq_false] at str
          exact ⟨rfl, str, (decimalShape_iff text).mpr shape⟩
    · rintro ⟨rfl, str, shape⟩
      rw [if_neg, if_neg ((decimalShape_iff raw).mp shape)]
      rw [← Option.not_isSome, str]
      exact Bool.false_ne_true
  | _ => exact ⟨nofun, fun both => nomatch both.1⟩

theorem parseDecimal_iff {s : Text} {v : MyValue} :
    parseDecimal s = some v ↔ isDecimalText s = true ∧ v = .bytes s := by
  rw [parseDecimal]
  constructor
  · intro found
    split at found
    · rename_i shape
      exact ⟨shape, (Option.some.inj found).symm⟩
    · cases found
  · rintro ⟨shape, rfl⟩
    rw [if_pos shape]

/-! ## The two directions -/

/-- The renderers against the binders on a text. -/
structure Agreement (tag : Temporal) (s : Text) : Prop where
  bound : ∀ v, InRange v → tag.render v = .ok s → tag.parse s = some (unsignedZero v)
  canonical : (∀ v, tag.parse s = some v → Canonical tag s v) ↔ ¬OtherSpelling tag s
  decimalBound : ∀ v, decimalToText v = .ok s → parseDecimal s = some v
  decimalCanonical : ∀ v, IsStr s → parseDecimal s = some v → decimalToText v = .ok s

theorem temporalText_agrees (tag : Temporal) (s : Text) : Agreement tag s where
  bound := fun _ inside done => parse_render inside done
  canonical := canonical_iff tag s
  decimalBound := by
    intro v done
    obtain ⟨same, _, shape⟩ := decimalToText_iff.mp done
    exact parseDecimal_iff.mpr ⟨shape, same⟩
  decimalCanonical := by
    intro v str found
    obtain ⟨shape, same⟩ := parseDecimal_iff.mp found
    exact decimalToText_iff.mpr ⟨same, str, shape⟩

/-- `2026-08-05 11:45:07.000000`. -/
def zeroFractionStamp : Text :=
  dateText 2026 8 5 ++ 32 :: (clockText 11 45 7 ++ zeroFraction)

/-- It is bound to the value that another text is rendered for. -/
theorem zeroFractionStamp_bound :
    parseDatetime zeroFractionStamp = some (.date 2026 8 5 11 45 7 0) ∧
      datetimeToText (.date 2026 8 5 11 45 7 0) =
        .ok (dateText 2026 8 5 ++ 32 :: clockText 11 45 7) ∧
      ¬∀ tag s v, Temporal.parse tag s = some v → Canonical tag s v := by
  refine ⟨rfl, rfl, fun all => ?_⟩
  have other : OtherSpelling .timestamp zeroFractionStamp :=
    .timestamp ⟨by decide, by decide, by decide⟩ ⟨by decide, by decide, by decide⟩
  obtain ⟨v, parsed, refused⟩ := not_canonical other
  exact refused (all _ _ v parsed)

end FerroEngine.MyBindAgreement
