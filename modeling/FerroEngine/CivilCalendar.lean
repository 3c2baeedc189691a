import Mathlib.Tactic.IntervalCases
import Mathlib.Tactic.Linarith

set_option autoImplicit false

/-! # The proleptic Gregorian calendar

Days counted in eras of 400 years that begin in March.
-/

namespace FerroEngine.CivilCalendar

def isLeap (y : Int) : Bool :=
  y % 4 = 0 && (y % 100 ≠ 0 || y % 400 = 0)

def daysInMonth (y m : Int) : Int :=
  if m = 2 then if isLeap y then 29 else 28
  else if m = 4 ∨ m = 6 ∨ m = 9 ∨ m = 11 then 30
  else 31

/-- A day of the calendar. -/
structure Exists (y m d : Int) : Prop where
  month : 1 ≤ m ∧ m ≤ 12
  day : 1 ≤ d ∧ d ≤ daysInMonth y m

instance (y m d : Int) : Decidable (Exists y m d) :=
  decidable_of_iff ((1 ≤ m ∧ m ≤ 12) ∧ 1 ≤ d ∧ d ≤ daysInMonth y m)
    ⟨fun h => ⟨h.1, h.2⟩, fun h => ⟨h.month, h.day⟩⟩

theorem daysInMonth_le (y m : Int) : daysInMonth y m ≤ 31 := by
  unfold daysInMonth
  split_ifs <;> omega

/-! ## Years of an era -/

/-- Century, four-year group, and day in the group; the last day of the era is in none of its own
centuries. -/
structure Place (doe c q t : Int) : Prop where
  century : 0 ≤ c ∧ c ≤ 3
  group : 0 ≤ q ∧ q ≤ 24
  day : 0 ≤ t ∧ t ≤ 1460
  sum : doe = 36524 * c + 1461 * q + t
  /-- Only the last century has a leap day at its end. -/
  leap : q = 24 → t = 1460 → c = 3

theorem place_exists {doe : Int} (low : 0 ≤ doe) (high : doe < 146097) :
    ∃ c q t, Place doe c q t := by
  by_cases last : doe = 146096
  · exact ⟨3, 24, 1460, by omega, by omega, by omega, by omega, by omega⟩
  · refine ⟨doe / 36524, doe % 36524 / 1461, doe % 36524 % 1461, ?_, ?_, ?_, ?_, ?_⟩
    · omega
    · omega
    · omega
    · omega
    · omega

def yearOfEra (doe : Int) : Int :=
  (doe - doe / 1460 + doe / 36524 - doe / 146096) / 365

/-- The year in its group; the leap day belongs to the last one. -/
def yearOfGroup (t : Int) : Int :=
  min (t / 365) 3

theorem yearOfEra_place {doe c q t : Int} (place : Place doe c q t) :
    yearOfEra doe = 100 * c + 4 * q + yearOfGroup t := by
  have century := place.century
  have group := place.group
  have day := place.day
  have sum := place.sum
  have leap := place.leap
  have centuries : doe / 36524 - doe / 146096 = c := by
    by_cases last : q = 24 ∧ t = 1460
    · have final := leap last.1 last.2
      omega
    · have inside : 1461 * q + t < 36524 := by omega
      have whole : doe / 36524 = c := by omega
      have none : doe / 146096 = 0 := by omega
      omega
  have carry : ∃ e, (e = 0 ∧ 24 * c + q + t < 1460 ∨ e = 1 ∧ 1460 ≤ 24 * c + q + t) ∧
      doe / 1460 = 25 * c + q + e := by
    by_cases more : 24 * c + q + t < 1460
    · exact ⟨0, .inl ⟨rfl, more⟩, by omega⟩
    · exact ⟨1, .inr ⟨rfl, by omega⟩, by omega⟩
  obtain ⟨e, range, groups⟩ := carry
  have late : t = 1460 → e = 1 := by omega
  have total : doe - doe / 1460 + doe / 36524 - doe / 146096 =
      365 * (100 * c + 4 * q) + (t - e) := by
    omega
  unfold yearOfEra yearOfGroup
  rw [total]
  omega

/-- The day of the year, counted from the first of March. -/
def dayOfYear (doe : Int) : Int :=
  doe - (365 * yearOfEra doe + yearOfEra doe / 4 - yearOfEra doe / 100)

theorem dayOfYear_place {doe c q t : Int} (place : Place doe c q t) :
    dayOfYear doe = t - 365 * yearOfGroup t := by
  have century := place.century
  have group := place.group
  have day := place.day
  have sum := place.sum
  have years := yearOfEra_place place
  have position : 0 ≤ yearOfGroup t ∧ yearOfGroup t ≤ 3 := by
    unfold yearOfGroup
    omega
  unfold dayOfYear
  rw [years]
  omega

theorem dayOfYear_range {doe : Int} (low : 0 ≤ doe) (high : doe < 146097) :
    0 ≤ dayOfYear doe ∧ dayOfYear doe ≤ 365 := by
  obtain ⟨c, q, t, place⟩ := place_exists low high
  have day := place.day
  rw [dayOfYear_place place]
  unfold yearOfGroup
  omega

/-- A year that ends on a 366th day ends in a leap February. -/
theorem isLeap_of_dayOfYear {doe : Int} (low : 0 ≤ doe) (high : doe < 146097)
    (long : dayOfYear doe = 365) (era : Int) : isLeap (yearOfEra doe + era * 400 + 1) = true := by
  obtain ⟨c, q, t, place⟩ := place_exists low high
  have century := place.century
  have group := place.group
  have day := place.day
  have leap := place.leap
  rw [dayOfYear_place place] at long
  have last : t = 1460 := by
    unfold yearOfGroup at long
    omega
  have third : yearOfGroup t = 3 := by
    rw [last]
    rfl
  have years := yearOfEra_place place
  rw [third] at years
  unfold isLeap
  simp only [Bool.and_eq_true, Bool.or_eq_true, decide_eq_true_eq]
  omega

/-! ## Months of a March year -/

def monthIndex (doy : Int) : Int :=
  (5 * doy + 2) / 153

def dayOfMonth (doy : Int) : Int :=
  doy - (153 * monthIndex doy + 2) / 5 + 1

def monthOf (mp : Int) : Int :=
  if mp < 10 then mp + 3 else mp - 9

/-- Every month but February. -/
theorem length_of_long {y mp : Int} (low : 0 ≤ mp) (high : mp ≤ 10) :
    daysInMonth y (monthOf mp) = (153 * (mp + 1) + 2) / 5 - (153 * mp + 2) / 5 := by
  interval_cases mp <;> rfl

theorem daysInMonth_february {y : Int} : daysInMonth y (monthOf 11) = if isLeap y then 29 else 28 :=
  rfl

theorem exists_of_dayOfYear {doy y : Int} (low : 0 ≤ doy) (high : doy ≤ 365)
    (leap : doy = 365 → isLeap y = true) :
    Exists y (monthOf (monthIndex doy)) (dayOfMonth doy) := by
  have range : 0 ≤ monthIndex doy ∧ monthIndex doy ≤ 11 := by
    unfold monthIndex
    omega
  have floor : 153 * monthIndex doy ≤ 5 * doy + 2 ∧ 5 * doy + 2 < 153 * (monthIndex doy + 1) := by
    unfold monthIndex
    omega
  unfold dayOfMonth
  generalize monthIndex doy = mp at range floor ⊢
  refine ⟨?_, ?_⟩
  · unfold monthOf
    split <;> omega
  by_cases february : mp = 11
  · rw [february, daysInMonth_february]
    by_cases long : doy = 365
    · rw [leap long, if_pos rfl]
      omega
    · split <;> omega
  · rw [length_of_long range.1 (by omega)]
    omega

/-! ## Day numbers -/

/-- The days from the first of January of the year 1 to that of another year. -/
def daysBeforeYear (y : Int) : Int :=
  365 * (y - 1) + (y - 1) / 4 - (y - 1) / 100 + (y - 1) / 400

/-- The lengths of the first `m` months. -/
def daysOfMonths (y : Int) : Nat → Int
  | 0 => 0
  | m + 1 => daysOfMonths y m + daysInMonth y (m + 1)

/-- The number of a day, from zero for the first of January of the year 1. -/
def dayNumber (y m d : Int) : Int :=
  daysBeforeYear y + daysOfMonths y (m - 1).toNat + (d - 1)

theorem leap_cases (y : Int) :
    (isLeap y = true ∧ daysBeforeYear (y + 1) = daysBeforeYear y + 366) ∨
      (isLeap y = false ∧ daysBeforeYear (y + 1) = daysBeforeYear y + 365) := by
  unfold daysBeforeYear
  cases leap : isLeap y with
  | true =>
    unfold isLeap at leap
    simp only [Bool.and_eq_true, Bool.or_eq_true, decide_eq_true_eq, ne_eq, decide_not,
      Bool.not_eq_true', decide_eq_false_iff_not] at leap
    exact .inl ⟨rfl, by omega⟩
  | false =>
    unfold isLeap at leap
    simp only [Bool.and_eq_false_iff, Bool.or_eq_false_iff, decide_eq_false_iff_not, ne_eq,
      decide_not, Bool.not_eq_false', decide_eq_true_eq] at leap
    exact .inr ⟨rfl, by omega⟩

/-- The months in front of one, by its place in a March year. -/
theorem daysOfMonths_march {y mp : Int} (low : 0 ≤ mp) (high : mp ≤ 9) :
    daysOfMonths y (monthOf mp - 1).toNat =
      daysBeforeYear (y + 1) - daysBeforeYear y - 306 + (153 * mp + 2) / 5 := by
  obtain ⟨leap, length⟩ | ⟨leap, length⟩ := leap_cases y
  · rw [length]
    interval_cases mp <;> simp [monthOf, daysOfMonths, daysInMonth, leap]
  · rw [length]
    interval_cases mp <;> simp [monthOf, daysOfMonths, daysInMonth, leap]

theorem daysOfMonths_january {y mp : Int} (low : 10 ≤ mp) (high : mp ≤ 11) :
    daysOfMonths y (monthOf mp - 1).toNat = (153 * mp + 2) / 5 - 306 := by
  interval_cases mp
  · rfl
  · rfl

/-- The year of a day by its March year. -/
def yearOf (y mp : Int) : Int :=
  if monthOf mp ≤ 2 then y + 1 else y

theorem dayNumber_march {y mp d : Int} (low : 0 ≤ mp) (high : mp ≤ 11) :
    dayNumber (yearOf y mp) (monthOf mp) d =
      daysBeforeYear (y + 1) - 306 + (153 * mp + 2) / 5 + (d - 1) := by
  unfold dayNumber yearOf
  by_cases late : mp ≤ 9
  · have month : ¬monthOf mp ≤ 2 := by
      unfold monthOf
      split <;> omega
    rw [if_neg month, daysOfMonths_march low late]
    omega
  · have month : monthOf mp ≤ 2 := by
      unfold monthOf
      split <;> omega
    rw [if_pos month, daysOfMonths_january (by omega) high]
    omega

theorem daysBeforeYear_era {yoe : Int} (era : Int) (low : 0 ≤ yoe) (high : yoe ≤ 399) :
    daysBeforeYear (yoe + era * 400 + 1) =
      146097 * era + 365 * yoe + yoe / 4 - yoe / 100 := by
  have year : yoe + era * 400 + 1 - 1 = yoe + era * 400 := by omega
  have quarters : (yoe + era * 400) / 4 = yoe / 4 + era * 100 := by omega
  have centuries : (yoe + era * 400) / 100 = yoe / 100 + era * 4 := by omega
  have eras : (yoe + era * 400) / 400 = era := by omega
  unfold daysBeforeYear
  rw [year, quarters, centuries, eras]
  omega

/-- Days counted from the first of March of the year 0 and the day that they lead to. -/
theorem dayNumber_civil (z : Int) :
    dayNumber
        (yearOf (yearOfEra (z % 146097) + z / 146097 * 400) (monthIndex (dayOfYear (z % 146097))))
        (monthOf (monthIndex (dayOfYear (z % 146097)))) (dayOfMonth (dayOfYear (z % 146097))) =
      z - 306 := by
  have low : 0 ≤ z % 146097 := by omega
  have high : z % 146097 < 146097 := by omega
  have days := dayOfYear_range low high
  have range : 0 ≤ monthIndex (dayOfYear (z % 146097)) ∧
      monthIndex (dayOfYear (z % 146097)) ≤ 11 := by
    unfold monthIndex
    omega
  obtain ⟨c, q, t, place⟩ := place_exists low high
  have years := yearOfEra_place place
  have century := place.century
  have group := place.group
  have position : 0 ≤ yearOfGroup t ∧ yearOfGroup t ≤ 3 := by
    have day := place.day
    unfold yearOfGroup
    omega
  have era : 0 ≤ yearOfEra (z % 146097) ∧ yearOfEra (z % 146097) ≤ 399 := by omega
  rw [dayNumber_march range.1 range.2]
  have parts : dayOfYear (z % 146097) = z % 146097 - (365 * yearOfEra (z % 146097) +
      yearOfEra (z % 146097) / 4 - yearOfEra (z % 146097) / 100) := rfl
  have before := daysBeforeYear_era (z / 146097) era.1 era.2
  unfold dayOfMonth
  omega

/-! ## The order of the days -/

theorem daysBeforeYear_mono {y y' : Int} (le : y ≤ y') : daysBeforeYear y ≤ daysBeforeYear y' := by
  unfold daysBeforeYear
  omega

theorem daysInMonth_nonneg (y m : Int) : 28 ≤ daysInMonth y m := by
  unfold daysInMonth
  split_ifs <;> omega

theorem daysOfMonths_mono (y : Int) {m m' : Nat} (le : m ≤ m') :
    daysOfMonths y m ≤ daysOfMonths y m' := by
  induction le with
  | refl => exact le_refl _
  | step le ih =>
    rename_i m'
    have length := daysInMonth_nonneg y (m' + 1)
    rw [daysOfMonths]
    omega

theorem daysOfMonths_year (y : Int) :
    daysOfMonths y 12 = daysBeforeYear (y + 1) - daysBeforeYear y := by
  obtain ⟨leap, length⟩ | ⟨leap, length⟩ := leap_cases y
  · rw [length]
    simp [daysOfMonths, daysInMonth, leap]
  · rw [length]
    simp [daysOfMonths, daysInMonth, leap]

/-- The days of a month lie between it and the next. -/
theorem dayNumber_within {y m d : Int} (real : Exists y m d) :
    daysBeforeYear y + daysOfMonths y (m - 1).toNat ≤ dayNumber y m d ∧
      dayNumber y m d < daysBeforeYear y + daysOfMonths y m.toNat := by
  obtain ⟨month, day⟩ := real
  have next : m.toNat = (m - 1).toNat + 1 := by omega
  have name : (((m - 1).toNat : Nat) : Int) + 1 = m := by omega
  unfold dayNumber
  rw [next, daysOfMonths, name]
  omega

def Before (y m d y' m' d' : Int) : Prop :=
  y < y' ∨ y = y' ∧ (m < m' ∨ m = m' ∧ d < d')

theorem dayNumber_lt {y m d y' m' d' : Int} (real : Exists y m d) (real' : Exists y' m' d')
    (before : Before y m d y' m' d') : dayNumber y m d < dayNumber y' m' d' := by
  have within := dayNumber_within real
  have within' := dayNumber_within real'
  obtain ⟨month, -⟩ := real
  obtain ⟨month', -⟩ := real'
  obtain year | ⟨rfl, months | ⟨rfl, days⟩⟩ := before
  · have start := daysBeforeYear_mono (by omega : y + 1 ≤ y')
    have ending := daysOfMonths_year y
    have inside := daysOfMonths_mono y (by omega : m.toNat ≤ 12)
    have first := daysOfMonths_mono y' (Nat.zero_le (m' - 1).toNat)
    have zero : daysOfMonths y' 0 = 0 := rfl
    omega
  · have inside := daysOfMonths_mono y (by omega : m.toNat ≤ (m' - 1).toNat)
    omega
  · unfold dayNumber
    omega

/-- A day with a greater number is later in the calendar. -/
theorem before_of_dayNumber_lt {y m d y' m' d' : Int} (real : Exists y m d)
    (real' : Exists y' m' d') (later : dayNumber y m d < dayNumber y' m' d') :
    Before y m d y' m' d' := by
  by_contra not
  have other : Before y' m' d' y m d ∨ y' = y ∧ m' = m ∧ d' = d := by
    unfold Before at not ⊢
    omega
  obtain before | ⟨rfl, rfl, rfl⟩ := other
  · have earlier := dayNumber_lt real' real before
    omega
  · omega

/-- A day's number belongs to it alone. -/
theorem dayNumber_injective {y m d y' m' d' : Int} (real : Exists y m d)
    (real' : Exists y' m' d') (same : dayNumber y m d = dayNumber y' m' d') :
    y = y' ∧ m = m' ∧ d = d' := by
  by_contra other
  have apart : Before y m d y' m' d' ∨ Before y' m' d' y m d := by
    unfold Before
    omega
  obtain before | before := apart
  · have earlier := dayNumber_lt real real' before
    omega
  · have earlier := dayNumber_lt real' real before
    omega

end FerroEngine.CivilCalendar
