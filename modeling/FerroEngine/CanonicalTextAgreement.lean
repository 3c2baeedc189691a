import FerroEngine.CanonicalTextLaws
import FerroEngine.MyText
import FerroEngine.PgText

set_option autoImplicit false

/-! # The renderers write the canonical forms -/

namespace FerroEngine.CanonicalTextAgreement

open DecimalText CivilCalendar CanonicalForms CanonicalTextLaws
open CanonicalText (hasZero infinities dateIsSentinel timestampIsInstant timestamptzIsInstant)

/-! ## PostgreSQL numbers -/

section Numeric

open PgText

theorem pushChars_number {chars : Text} (number : Number chars) (started : Bool) :
    Number (pushChars started chars) := by
  induction chars generalizing started with
  | nil => exact absurd rfl number.1
  | cons c chars ih =>
    have isOne := number.2 c List.mem_cons_self
    have later : Digits chars := fun b member => number.2 b (List.mem_cons_of_mem c member)
    rw [pushChars]
    split
    · rename_i skipped
      exact ih ⟨skipped.2.2, later⟩ started
    · refine ⟨List.cons_ne_nil _ _, ?_⟩
      intro b member
      obtain rfl | member := List.mem_cons.mp member
      · exact isOne
      · cases chars with
        | nil => cases member
        | cons c' chars => exact (ih ⟨List.cons_ne_nil _ _, later⟩ true).2 b member

theorem pushGroup_number {dig take : Nat} (range : dig ≤ 9999) (some_ : 0 < take)
    (stripLeading : Bool) : Number (pushGroup dig take stripLeading) := by
  refine pushChars_number ⟨?_, ?_⟩ _
  · cases take with
    | zero => exact absurd some_ (Nat.lt_irrefl 0)
    | succ take => exact List.cons_ne_nil _ _
  · intro b member
    have inGroup := List.mem_of_mem_take member
    simp only [groupChars, List.mem_cons, List.not_mem_nil, or_false] at inGroup
    obtain rfl | rfl | rfl | rfl := inGroup
    · exact isDigit_digitByte (by omega)
    · exact isDigit_digitByte (by omega)
    · exact isDigit_digitByte (by omega)
    · exact isDigit_digitByte (by omega)

theorem Number.append {s t : Text} (first : Number s) (second : Digits t) : Number (s ++ t) := by
  refine ⟨?_, ?_⟩
  · intro empty
    exact first.1 (List.append_eq_nil_iff.mp empty).1
  · intro b member
    obtain member | member := List.mem_append.mp member
    · exact first.2 b member
    · exact second b member

/-- The groups as the payload's check leaves them. -/
def InRange (digits : List Nat) : Prop :=
  ∀ d ∈ digits, d ≤ 9999

theorem getD_inRange {digits : List Nat} (range : InRange digits) (i : Nat) :
    (digits[i]?).getD 0 ≤ 9999 := by
  cases found : digits[i]? with
  | none => exact Nat.zero_le _
  | some d => exact range d (List.mem_of_getElem? found)

theorem integerGroups_digits {digits : List Nat} (range : InRange digits) (groups i : Nat) :
    Digits (integerGroups digits i groups) := by
  induction groups generalizing i with
  | zero => exact fun _ member => absurd member List.not_mem_nil
  | succ groups ih =>
    exact (Number.append (pushGroup_number (getD_inRange range i) (by omega) _) (ih (i + 1))).2

theorem integerGroups_number {digits : List Nat} (range : InRange digits) (groups i : Nat) :
    Number (integerGroups digits i (groups + 1)) :=
  Number.append (pushGroup_number (getD_inRange range i) (by omega) _)
    (integerGroups_digits range groups (i + 1))

theorem digitAt_inRange {digits : List Nat} (range : InRange digits) (idx : Int) :
    digitAt digits idx ≤ 9999 := by
  unfold digitAt
  split
  · exact getD_inRange range _
  · exact Nat.zero_le _

theorem fractionGroups_digits {digits : List Nat} (range : InRange digits) (idx : Int)
    (left : Nat) : Digits (fractionGroups digits idx left) := by
  induction left using Nat.strongRecOn generalizing idx with
  | _ left ih =>
    unfold fractionGroups
    split
    · exact fun _ member => absurd member List.not_mem_nil
    · rename_i more
      have taken : 0 < min left 4 := by omega
      have group := pushGroup_number (digitAt_inRange range idx) taken false
      exact (Number.append group (ih (left - 4) (by omega) (idx + 1))).2

theorem fractionGroups_number {digits : List Nat} (range : InRange digits) (idx : Int)
    {left : Nat} (more : 0 < left) : Number (fractionGroups digits idx left) := by
  unfold fractionGroups
  rw [if_neg (by omega)]
  exact Number.append (pushGroup_number (digitAt_inRange range idx) (by omega) false)
    (fractionGroups_digits range (idx + 1) (left - 4))

theorem checkDigits_inRange {i : Nat} {ds : List Int} {digits : List Nat}
    (checked : checkDigits i ds = .ok digits) : InRange digits := by
  induction ds generalizing i digits with
  | nil =>
    cases checked
    exact fun _ member => absurd member List.not_mem_nil
  | cons d ds ih =>
    unfold checkDigits at checked
    split at checked
    · rename_i inside
      cases later : checkDigits (i + 1) ds with
      | error e =>
        rw [later] at checked
        cases checked
      | ok rest =>
        rw [later] at checked
        cases checked
        intro k member
        obtain rfl | member := List.mem_cons.mp member
        · omega
        · exact ih later k member
    · cases checked

theorem renderNumeric_decimal {digits : List Nat} (range : InRange digits) (weight : Int)
    (sign dscale : Nat) : IsDecimal (renderNumeric weight sign dscale digits) := by
  have signed : (if sign = signNeg then [45] else []) = ([] : Text) ∨
      (if sign = signNeg then [45] else []) = ([43] : Text) ∨
      (if sign = signNeg then [45] else []) = ([45] : Text) := by
    split
    · exact .inr (.inr rfl)
    · exact .inl rfl
  have whole : Number (if weight < 0 then [48] else integerGroups digits 0 (weight.toNat + 1)) := by
    split
    · exact ⟨List.cons_ne_nil _ _, List.all_eq_true.mp rfl⟩
    · exact integerGroups_number range _ 0
  unfold renderNumeric
  by_cases scaled : 0 < dscale
  · rw [if_pos scaled]
    exact .point signed whole (fractionGroups_number range _ scaled)
  · rw [if_neg scaled, List.append_nil]
    exact .whole signed whole

theorem numericToText_decimal {raw text : Text} (done : numericToText raw = .ok text) :
    IsDecimal text := by
  unfold numericToText at done
  dsimp only at done
  split_ifs at done
  · cases done
    exact .special List.mem_cons_self
  · cases done
    exact .special (List.mem_cons_of_mem _ List.mem_cons_self)
  · cases done
    exact .special (List.mem_cons_of_mem _ (List.mem_cons_of_mem _ List.mem_cons_self))
  · cases checked : checkDigits 0 (words (raw.drop 8)) with
    | error e =>
      rw [checked] at done
      cases done
    | ok digits =>
      rw [checked] at done
      cases done
      exact renderNumeric_decimal (checkDigits_inRange checked) _ _ _

end Numeric

/-! ## Parts of a clock -/

/-- The microseconds, written unless they are zero. -/
def written (us : Nat) : Option Nat :=
  if us = 0 then none else some us

theorem written_small {us : Nat} (small : us < 10 ^ 6) : ∀ k ∈ written us, k < 10 ^ 6 := by
  unfold written
  split
  · exact nofun
  · rintro _ ⟨⟩
    exact small

theorem fmtTimeOfDay_eq {h mi s us : Nat} (minute : mi ≤ 59) (second : s ≤ 59)
    (small : us < 10 ^ 6) :
    MyText.fmtTimeOfDay h mi s us =
      format 2 h ++ (minuteText mi s ++ fractionText (written us)) := by
  unfold MyText.fmtTimeOfDay minuteText written
  rw [format_small (n := mi) (by omega), format_small (n := s) (by omega)]
  by_cases none : us = 0
  · rw [if_pos none, if_pos none]
    simp only [fractionText, List.append_nil]
  · rw [if_neg none, if_neg none, format_small small]
    simp only [fractionText, List.append_assoc, List.cons_append]

theorem fmtTimeOfDay_clock {h mi s us : Nat} (hour : h ≤ 23) (minute : mi ≤ 59) (second : s ≤ 59)
    (small : us < 10 ^ 6) :
    MyText.fmtTimeOfDay h mi s us =
      (Clock.mk h mi s (written us) hour minute second (written_small small)).text := by
  rw [fmtTimeOfDay_eq minute second small, format_small (n := h) (by omega)]
  unfold Clock.text clockText
  rw [List.append_assoc]

theorem format_hours (h : Nat) : Digits (format 2 h) ∧ 2 ≤ (format 2 h).length := by
  unfold format
  split
  · exact ⟨digits_padded 2 h, (padded_length 2 h).ge⟩
  · refine ⟨(digits_decimal h).1, ?_⟩
    have more := List.length_pos_iff.mpr (digits_decimal (h / 10)).2
    rw [decimal, if_neg (by omega), List.length_append, List.length_singleton]
    omega

theorem fmtTimeOfDay_time {sign : Text} {h mi s us : Nat} (signed : sign = [] ∨ sign = [45])
    (minute : mi ≤ 59) (second : s ≤ 59) (small : us < 10 ^ 6) :
    IsTime (sign ++ MyText.fmtTimeOfDay h mi s us) := by
  obtain ⟨all, long⟩ := format_hours h
  rw [fmtTimeOfDay_eq minute second small]
  exact ⟨sign, format 2 h, mi, s, written us, signed, all, long, minute, second,
    written_small small, rfl⟩

/-! ## PostgreSQL dates and times -/

section PostgreSql

open PgText

theorem formatInt_nat (width n : Nat) : formatInt width n = format width n := by
  unfold formatInt
  rw [if_neg (by omega), Int.natAbs_natCast]

/-- The two backends write a time of day alike. -/
theorem pgFmtTimeOfDay_eq (us : Nat) :
    PgText.fmtTimeOfDay us =
      MyText.fmtTimeOfDay (us / 3600000000) (us % 3600000000 / 60000000) (us % 60000000 / 1000000)
        (us % 1000000) := by
  have h : (us : Int) / usPerHour = (us / 3600000000 : Nat) := by norm_cast
  have mi : (us : Int) % usPerHour / usPerMinute = (us % 3600000000 / 60000000 : Nat) := by
    norm_cast
  have s : (us : Int) % usPerMinute / usPerSecond = (us % 60000000 / 1000000 : Nat) := by
    norm_cast
  have frac : (us : Int) % usPerSecond = (us % 1000000 : Nat) := by norm_cast
  unfold PgText.fmtTimeOfDay MyText.fmtTimeOfDay
  dsimp only
  rw [h, mi, s, frac, formatInt_nat, formatInt_nat, formatInt_nat, formatInt_nat]
  simp only [Int.natCast_eq_zero]

theorem civilFromPgDays_exists (pgDays : Int) :
    Exists (civilFromPgDays pgDays).1 (civilFromPgDays pgDays).2.1 (civilFromPgDays pgDays).2.2 := by
  generalize days : pgDays + pgEpochUnixDays + 719468 = z
  have low : 0 ≤ z % 146097 := by omega
  have high : z % 146097 < 146097 := by omega
  have range := dayOfYear_range low high
  unfold civilFromPgDays
  rw [days]
  change Exists
    (if monthOf (monthIndex (dayOfYear (z % 146097))) ≤ 2 then
      yearOfEra (z % 146097) + z / 146097 * 400 + 1
    else yearOfEra (z % 146097) + z / 146097 * 400)
    (monthOf (monthIndex (dayOfYear (z % 146097)))) (dayOfMonth (dayOfYear (z % 146097)))
  refine exists_of_dayOfYear range.1 range.2 ?_
  intro long
  have february : monthOf (monthIndex 365) ≤ 2 := by decide
  rw [long, if_pos february]
  exact isLeap_of_dayOfYear low high long _

theorem canonicalDate_day {what : What} {date : Int × Int × Int} {text : Text}
    (real : Exists date.1 date.2.1 date.2.2) (done : canonicalDate what date = .ok text) :
    ∃ day : Day, text = day.text := by
  obtain ⟨y, mo, d⟩ := date
  obtain ⟨month, inMonth⟩ := real
  have days := daysInMonth_le y mo
  dsimp only at month inMonth days
  unfold canonicalDate at done
  dsimp only at done
  split at done
  · rename_i year
    obtain ⟨y, rfl⟩ := Int.eq_ofNat_of_zero_le (by omega : 0 ≤ y)
    obtain ⟨mo, rfl⟩ := Int.eq_ofNat_of_zero_le (by omega : 0 ≤ mo)
    obtain ⟨d, rfl⟩ := Int.eq_ofNat_of_zero_le (by omega : 0 ≤ d)
    rw [formatInt_nat, formatInt_nat, formatInt_nat, format_small (by omega),
      format_small (by omega), format_small (by omega)] at done
    refine ⟨⟨y, mo, d, by omega, by omega, by omega, .inr ⟨month, inMonth⟩⟩, ?_⟩
    exact (Except.ok.inj done).symm
  · cases done

theorem bind_eq_ok {α : Type} {x : Except PoolError α} {f : α → Except PoolError Text}
    {text : Text} (done : x.bind f = .ok text) : ∃ a, x = .ok a ∧ f a = .ok text := by
  cases x with
  | error e => cases done
  | ok a => exact ⟨a, rfl, done⟩

theorem dateToText_form {raw text : Text} (done : dateToText raw = .ok text) :
    ∃ z, IsDate text z := by
  obtain ⟨days, -, done⟩ := bind_eq_ok done
  split_ifs at done
  · cases done
    exact ⟨true, .infinity List.mem_cons_self⟩
  · cases done
    exact ⟨true, .infinity (List.mem_cons_of_mem _ List.mem_cons_self)⟩
  · obtain ⟨day, rfl⟩ := canonicalDate_day (civilFromPgDays_exists days) done
    exact ⟨day.isSentinel, .day day⟩

theorem timeToText_form {raw text : Text} (done : timeToText raw = .ok text) : IsTime text := by
  obtain ⟨us, -, done⟩ := bind_eq_ok done
  split_ifs at done with negative
  cases done
  obtain ⟨us, rfl⟩ := Int.eq_ofNat_of_zero_le (by omega : 0 ≤ us)
  rw [pgFmtTimeOfDay_eq]
  exact fmtTimeOfDay_time (.inl rfl) (by omega) (by omega) (by omega)

theorem stampToText_form {what : What} {separator : UInt8} {ending raw text : Text}
    (literals : List Text) (done : stampToText what separator ending raw = .ok text) :
    ∃ z, IsStamp separator ending literals text z := by
  obtain ⟨us, -, done⟩ := bind_eq_ok done
  cases sentinel : timestampSentinel us with
  | some s =>
    rw [sentinel] at done
    cases done
    unfold timestampSentinel at sentinel
    split_ifs at sentinel
    · cases sentinel
      exact ⟨true, .infinity List.mem_cons_self⟩
    · cases sentinel
      exact ⟨true, .infinity (List.mem_cons_of_mem _ List.mem_cons_self)⟩
  | none =>
    rw [sentinel] at done
    cases date : canonicalDate what (civilFromPgDays (us / usPerDay)) with
    | error e =>
      simp only [splitTimestamp, date] at done
      cases done
    | ok dateText =>
      simp only [splitTimestamp, date] at done
      cases done
      obtain ⟨day, rfl⟩ := canonicalDate_day (civilFromPgDays_exists _) date
      have range : 0 ≤ us % usPerDay ∧ us % usPerDay < usPerDay := by
        unfold usPerDay
        omega
      obtain ⟨tod, same⟩ := Int.eq_ofNat_of_zero_le range.1
      rw [same] at range ⊢
      have below : tod < 86400000000 := Int.ofNat_lt.mp range.2
      rw [pgFmtTimeOfDay_eq, fmtTimeOfDay_clock (by omega) (by omega) (by omega) (by omega)]
      exact ⟨day.isSentinel, .instant day _⟩

end PostgreSql

/-! ## MySQL -/

section MySql

open MyText

/-- A date of four digits that exists or has a zero in it. -/
structure Displayable (p : Parts) : Prop where
  year : p.year ≤ 9999
  month : p.month ≤ 12
  day : p.day ≤ 31
  real : hasZero (p.year, p.month, p.day) = true ∨ Exists p.year p.month p.day

def Displayable.toDay {p : Parts} (displayable : Displayable p) : Day :=
  ⟨p.year, p.month, p.day, displayable.year, displayable.month, displayable.day, displayable.real⟩

theorem canonicalDate_eq {p : Parts} (displayable : Displayable p) :
    MyText.canonicalDate p.year p.month p.day = displayable.toDay.text := by
  have year := displayable.year
  have month := displayable.month
  have day := displayable.day
  unfold MyText.canonicalDate
  rw [format_small (by omega), format_small (by omega), format_small (by omega)]
  rfl

theorem checkTimeOfDay_inside {h mi s us : Nat} {b : Unit}
    (checked : MyText.checkTimeOfDay h mi s us = .ok b) :
    h ≤ 23 ∧ mi ≤ 59 ∧ s ≤ 59 ∧ us < 10 ^ 6 := by
  unfold MyText.checkTimeOfDay at checked
  split at checked
  · cases checked
  · omega

variable {v : MyValue} {p : Parts} {text : Text}

theorem myDate_form (parts : dateParts v = .ok p) (displayable : Displayable p)
    (done : MyText.dateToText v = .ok text) :
    IsDate text (hasZero (p.year, p.month, p.day)) := by
  unfold MyText.dateToText at done
  rw [parts] at done
  change (if _ then _ else _) = _ at done
  split at done
  · cases done
  · rw [canonicalDate_eq displayable] at done
    cases done
    exact .day displayable.toDay

theorem map_ok_exists {α ε : Type} {x : Except ε α} {f : α → Text}
    (done : x.map f = .ok text) : ∃ a, x = .ok a ∧ f a = text := by
  cases x with
  | error e => cases done
  | ok a => exact ⟨a, rfl, Except.ok.inj done⟩

/-- A timestamp with its parts displayed. -/
theorem stamp_form (displayable : Displayable p) (separator : UInt8) (ending : Text)
    (literals : List Text) {b : Unit}
    (checked : MyText.checkTimeOfDay p.hour p.minute p.second p.micros = .ok b) :
    IsStamp separator ending literals
      (MyText.canonicalDate p.year p.month p.day ++
        separator :: (MyText.fmtTimeOfDay p.hour p.minute p.second p.micros ++ ending))
      (hasZero (p.year, p.month, p.day)) := by
  obtain ⟨hour, minute, second, micros⟩ := checkTimeOfDay_inside checked
  rw [canonicalDate_eq displayable, fmtTimeOfDay_clock hour minute second micros]
  exact .instant displayable.toDay _

theorem datetime_form (parts : dateParts v = .ok p) (displayable : Displayable p)
    (done : datetimeToText v = .ok text) :
    IsTimestamp text (hasZero (p.year, p.month, p.day)) := by
  unfold datetimeToText at done
  rw [parts] at done
  obtain ⟨b, checked, rfl⟩ := map_ok_exists done
  have form := stamp_form displayable 32 [] [] checked
  rw [List.append_nil] at form
  exact form

theorem myTimestamptz_form (parts : dateParts v = .ok p) (displayable : Displayable p)
    (done : MyText.timestamptzToText v = .ok text) :
    IsTimestamptz text (hasZero (p.year, p.month, p.day)) := by
  unfold MyText.timestamptzToText at done
  rw [parts] at done
  obtain ⟨b, checked, rfl⟩ := map_ok_exists done
  by_cases zero : p = ⟨0, 0, 0, 0, 0, 0, 0⟩
  · rw [if_pos zero, zero]
    exact .literal (List.mem_singleton_self _)
  · rw [if_neg zero]
    exact stamp_form displayable 84 [90] _ checked

theorem myTime_form (done : MyText.timeToText v = .ok text) : IsTime text := by
  cases v with
  | time neg days h mi s us =>
    unfold MyText.timeToText at done
    dsimp only at done
    cases checked : MyText.checkTimeOfDay h.toNat mi.toNat s.toNat us.toNat with
    | error e =>
      rw [checked] at done
      cases done
    | ok b =>
      rw [checked, Except.bind] at done
      split at done
      · cases done
      · cases done
        refine fmtTimeOfDay_time ?_ ?_ ?_ ?_
        · split
          · exact .inr rfl
          · exact .inl rfl
        all_goals
          unfold usPerSecond
          omega
  | _ => cases done

theorem digitsOk_iff {s : Text} : digitsOk s = true ↔ Number s := by
  unfold digitsOk Number
  rw [Bool.and_eq_true, Bool.not_eq_true', List.isEmpty_eq_false_iff, List.all_eq_true]
  rfl

theorem stripSign_cases (s : Text) :
    ∃ sign, (sign = [] ∨ sign = [43] ∨ sign = [45]) ∧ s = sign ++ stripSign s := by
  cases s with
  | nil => exact ⟨[], .inl rfl, rfl⟩
  | cons c s =>
    by_cases sign : c = 45 ∨ c = 43
    · refine ⟨[c], ?_, ?_⟩
      · obtain rfl | rfl := sign
        · exact .inr (.inr rfl)
        · exact .inr (.inl rfl)
      · rw [stripSign, if_pos sign]
        rfl
    · refine ⟨[], .inl rfl, ?_⟩
      rw [stripSign, if_neg sign]
      rfl

theorem myDecimal_form (done : decimalToText v = .ok text) : IsDecimal text := by
  cases v with
  | bytes raw =>
    unfold decimalToText at done
    dsimp only at done
    split_ifs at done with utf8 shape
    rw [← Except.ok.inj done]
    rw [not_or, Bool.not_eq_false] at shape
    obtain ⟨sign, signed, whole⟩ := stripSign_cases raw
    have int := digitsOk_iff.mp shape.1
    have body := splitOnce_join (stripSign raw)
    rw [whole, body]
    cases frac : (splitOnce (stripSign raw)).2 with
    | none =>
      rw [Option.elim_none, List.append_nil]
      exact .whole signed int
    | some f =>
      have number : Number f := by
        have refused := shape.2
        rw [frac] at refused
        simpa [digitsOk_iff] using refused
      exact .point signed int number
  | _ => cases done

end MySql

/-! ## Agreement -/

/-- The client takes the text as it is and knows the sentinels. -/
def TakenDate (text : Text) : Prop :=
  CanonicalText.date text = .ok text ∧ ∃ z, IsDate text z ∧ dateIsSentinel text = z

def TakenTimestamp (text : Text) : Prop :=
  CanonicalText.timestamp text = .ok text ∧ ∃ z, IsTimestamp text z ∧ timestampIsInstant text = !z

def TakenTimestamptz (text : Text) : Prop :=
  CanonicalText.timestamptz text = .ok text ∧
    ∃ z, IsTimestamptz text z ∧ timestamptzIsInstant text = !z

theorem takenDate_of_form {text : Text} {z : Bool} (form : IsDate text z) : TakenDate text :=
  ⟨date_accepts form, z, form, dateIsSentinel_eq form⟩

theorem takenTimestamp_of_form {text : Text} {z : Bool} (form : IsTimestamp text z) :
    TakenTimestamp text :=
  ⟨timestamp_accepts form, z, form, timestampIsInstant_eq form⟩

theorem takenTimestamptz_of_form {text : Text} {z : Bool} (form : IsTimestamptz text z) :
    TakenTimestamptz text :=
  ⟨timestamptz_accepts form, z, form, timestamptzIsInstant_eq form⟩

/-- A driver value whose date, if it has one, is displayable. -/
def DisplayableValue (v : MyText.MyValue) : Prop :=
  ∀ p, MyText.dateParts v = .ok p → Displayable p

/-- The renderers against the validators, and the validators against the grammar. -/
structure Agreement : Prop where
  pgDecimal : ∀ raw text, PgText.numericToText raw = .ok text →
    CanonicalText.decimal text = .ok text
  pgDate : ∀ raw text, PgText.dateToText raw = .ok text → TakenDate text
  pgTime : ∀ raw text, PgText.timeToText raw = .ok text → CanonicalText.time text = .ok text
  pgTimestamp : ∀ raw text, PgText.timestampToText raw = .ok text → TakenTimestamp text
  pgTimestamptz : ∀ raw text, PgText.timestamptzToText raw = .ok text → TakenTimestamptz text
  myDecimal : ∀ v text, MyText.decimalToText v = .ok text → CanonicalText.decimal text = .ok text
  myTime : ∀ v text, MyText.timeToText v = .ok text → CanonicalText.time text = .ok text
  myDate : ∀ v text, DisplayableValue v → MyText.dateToText v = .ok text → TakenDate text
  myTimestamp : ∀ v text, DisplayableValue v → MyText.datetimeToText v = .ok text →
    TakenTimestamp text
  myTimestamptz : ∀ v text, DisplayableValue v → MyText.timestamptzToText v = .ok text →
    TakenTimestamptz text
  decimal : ∀ text out, NoNewline text →
    (CanonicalText.decimal text = .ok out ↔ out = text ∧ IsDecimal text)
  date : ∀ text out, NoNewline text →
    (CanonicalText.date text = .ok out ↔ out = text ∧ ∃ z, IsDate text z)
  time : ∀ text out, NoNewline text → (CanonicalText.time text = .ok out ↔ out = text ∧ IsTime text)
  timestamp : ∀ text out, NoNewline text →
    (CanonicalText.timestamp text = .ok out ↔ out = text ∧ ∃ z, IsTimestamp text z)
  timestamptz : ∀ text out, NoNewline text →
    (CanonicalText.timestamptz text = .ok out ↔ out = text ∧ ∃ z, IsTimestamptz text z)

theorem dateParts_of_bind {α : Type} {v : MyText.MyValue}
    {f : MyText.Parts → Except MyText.BackendError α} {text : α}
    (done : (MyText.dateParts v).bind f = .ok text) : ∃ p, MyText.dateParts v = .ok p := by
  cases parts : MyText.dateParts v with
  | error e =>
    rw [parts] at done
    cases done
  | ok p => exact ⟨p, rfl⟩

theorem canonicalText_agrees : Agreement where
  pgDecimal := fun _ _ done => decimal_accepts (numericToText_decimal done)
  pgDate := by
    intro raw text done
    obtain ⟨z, form⟩ := dateToText_form done
    exact takenDate_of_form form
  pgTime := fun _ _ done => time_accepts (timeToText_form done)
  pgTimestamp := by
    intro raw text done
    obtain ⟨z, form⟩ := stampToText_form [] done
    exact takenTimestamp_of_form form
  pgTimestamptz := by
    intro raw text done
    obtain ⟨z, form⟩ := stampToText_form [CanonicalText.zeroDatetime] done
    exact takenTimestamptz_of_form form
  myDecimal := fun _ _ done => decimal_accepts (myDecimal_form done)
  myTime := fun _ _ done => time_accepts (myTime_form done)
  myDate := by
    intro v text displayable done
    obtain ⟨p, parts⟩ := dateParts_of_bind done
    exact takenDate_of_form (myDate_form parts (displayable p parts) done)
  myTimestamp := by
    intro v text displayable done
    obtain ⟨p, parts⟩ := dateParts_of_bind done
    exact takenTimestamp_of_form (datetime_form parts (displayable p parts) done)
  myTimestamptz := by
    intro v text displayable done
    obtain ⟨p, parts⟩ := dateParts_of_bind done
    exact takenTimestamptz_of_form (myTimestamptz_form parts (displayable p parts) done)
  decimal := fun _ _ clean => decimal_iff clean
  date := fun _ _ clean => date_iff clean
  time := fun _ _ clean => time_iff clean
  timestamp := fun _ _ clean => timestamp_iff clean
  timestamptz := fun _ _ clean => timestamptz_iff clean

/-- `10000-01-01`. -/
def year10000 : Text :=
  [49, 48, 48, 48, 48, 45, 48, 49, 45, 48, 49]

/-- A thirtieth of February and a year of five digits are rendered, and refused by the client. -/
theorem february30_refused :
    MyText.dateToText (.date 2026 2 30 0 0 0 0) = .ok (dateText 2026 2 30) ∧
      CanonicalText.date (dateText 2026 2 30) = .error (.malformed .date .calendarDate) ∧
      MyText.dateToText (.date 10000 1 1 0 0 0 0) = .ok year10000 ∧
      CanonicalText.date year10000 = .error (.malformed .date .form) := by
  have five : format 4 10000 = [49, 48, 48, 48, 48] := by
    simp [format, decimal, digitByte]
  refine ⟨rfl, rfl, ?_, rfl⟩
  change Except.ok (format 4 10000 ++ _) = _
  rw [five]
  rfl

end FerroEngine.CanonicalTextAgreement
