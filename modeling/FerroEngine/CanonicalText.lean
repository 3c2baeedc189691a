import FerroEngine.CivilCalendar
import FerroEngine.DecimalText

set_option autoImplicit false

/-! # The client's checks of canonical text

`CanonicalText` of `php/client/src/Client/Value/CanonicalText.php`. A regular expression is
matched by the pieces that it is made of; none of them can match in a second way.
-/

namespace FerroEngine.CanonicalText

open DecimalText CivilCalendar

/-! ## Pieces of regular expressions -/

/-- `(\d{n})`. -/
def digits (n : Nat) (s : Text) : Option (Text × Text) :=
  if n ≤ s.length ∧ (s.take n).all isDigit = true then some (s.take n, s.drop n) else none

/-- `\d{n,}`. -/
def digitsFrom (n : Nat) (s : Text) : Option (Text × Text) :=
  if n ≤ (s.takeWhile isDigit).length then some (s.takeWhile isDigit, s.dropWhile isDigit)
  else none

def literal (b : UInt8) : Text → Option Text
  | [] => none
  | c :: s => if c = b then some s else none

/-- `$`, which also matches before a newline at the end. -/
def dollar (s : Text) : Bool :=
  s = [] || s = [10]

/-- `Z$`. -/
def zone (s : Text) : Bool :=
  (literal 90 s).any dollar

/-- `(?:\.\d{6})?` and what follows it. -/
def fraction (ending : Text → Bool) (s : Text) : Bool :=
  ((literal 46 s).bind (digits 6)).any (fun p => ending p.2) || ending s

/-- `(\d{4})-(\d{2})-(\d{2})`, as ints. -/
def dateGroups (s : Text) : Option ((Nat × Nat × Nat) × Text) := do
  let (y, s) ← digits 4 s
  let s ← literal 45 s
  let (mo, s) ← digits 2 s
  let s ← literal 45 s
  let (d, s) ← digits 2 s
  return ((value y, value mo, value d), s)

/-- `:(\d{2}):(\d{2})`, as ints. -/
def minuteGroups (s : Text) : Option ((Nat × Nat) × Text) := do
  let s ← literal 58 s
  let (mi, s) ← digits 2 s
  let s ← literal 58 s
  let (s', s) ← digits 2 s
  return ((value mi, value s'), s)

/-- `(\d{2}):(\d{2}):(\d{2})`, as ints. -/
def clockGroups (s : Text) : Option ((Nat × Nat × Nat) × Text) := do
  let (h, s) ← digits 2 s
  let ((mi, s'), s) ← minuteGroups s
  return ((value h, mi, s'), s)

/-! ## The regular expressions -/

/-- `/^(\d{4})-(\d{2})-(\d{2})$/`. -/
def reDate (s : Text) : Option (Nat × Nat × Nat) := do
  let (date, s) ← dateGroups s
  if dollar s then some date else none

/-- `-?`. -/
def skipMinus : Text → Text
  | [] => []
  | c :: s => if c = 45 then s else c :: s

/-- `/^(-?)(\d{2,})\:(\d{2}):(\d{2})(?:\.(\d{6}))?$/`, the minutes and seconds. -/
def reTime (s : Text) : Option (Nat × Nat) := do
  let (_, s) ← digitsFrom 2 (skipMinus s)
  let (clock, s) ← minuteGroups s
  if fraction dollar s then some clock else none

/-- The two timestamps, by the separator and the end. -/
def reStamp (separator : UInt8) (ending : Text → Bool) (s : Text) :
    Option ((Nat × Nat × Nat) × (Nat × Nat × Nat)) := do
  let (date, s) ← dateGroups s
  let s ← literal separator s
  let (clock, s) ← clockGroups s
  if fraction ending s then some (date, clock) else none

/-- `/^(\d{4})-(\d{2})-(\d{2}) (\d{2}):(\d{2}):(\d{2})(?:\.\d{6})?$/`. -/
def reTimestamp : Text → Option ((Nat × Nat × Nat) × (Nat × Nat × Nat)) :=
  reStamp 32 dollar

/-- `/^(\d{4})-(\d{2})-(\d{2})T(\d{2}):(\d{2}):(\d{2})(?:\.\d{6})?Z$/`. -/
def reTimestamptz : Text → Option ((Nat × Nat × Nat) × (Nat × Nat × Nat)) :=
  reStamp 84 zone

/-- `[+-]?`. -/
def skipSign : Text → Text
  | [] => []
  | c :: s => if c = 43 ∨ c = 45 then s else c :: s

/-- `/^[+-]?\d+(?:\.\d+)?$/`. -/
def reDecimal (s : Text) : Bool :=
  match digitsFrom 1 (skipSign s) with
  | none => false
  | some (_, s) => ((literal 46 s).bind (digitsFrom 1)).any (fun p => dollar p.2) || dollar s

/-! ## The validators -/

inductive Tag where
  | decimal
  | date
  | time
  | timestamp
  | timestamptz
  deriving DecidableEq, Repr

/-- What a malformed payload is told to be. -/
inductive Expected where
  /-- `[+-]digits[.digits], NaN, Infinity or -Infinity`, `YYYY-MM-DD, infinity or -infinity`, and
  so on: the form of the tag -/
  | form
  /-- `a month in 0..12 and a day in 0..31` -/
  | monthAndDay
  /-- `an existing calendar date` -/
  | calendarDate
  /-- `minutes and seconds in 0..59` -/
  | minutesAndSeconds
  /-- `a time of day in 00:00:00..23:59:59` -/
  | timeOfDay
  deriving DecidableEq, Repr

/-- `ProtocolException`. -/
inductive ProtocolException where
  | malformed (tag : Tag) (expected : Expected)
  deriving DecidableEq, Repr

/-- `NaN`, `Infinity` and `-Infinity`. -/
def decimalSpecials : List Text :=
  [[78, 97, 78], [73, 110, 102, 105, 110, 105, 116, 121],
    [45, 73, 110, 102, 105, 110, 105, 116, 121]]

/-- `infinity` and `-infinity`. -/
def infinities : List Text :=
  [[105, 110, 102, 105, 110, 105, 116, 121], [45, 105, 110, 102, 105, 110, 105, 116, 121]]

/-- `0000-00-00 00:00:00`. -/
def zeroDatetime : Text :=
  [48, 48, 48, 48, 45, 48, 48, 45, 48, 48, 32, 48, 48, 58, 48, 48, 58, 48, 48]

def decimal (text : Text) : Except ProtocolException Text :=
  if text ∈ decimalSpecials then .ok text
  else if reDecimal text = false then .error (.malformed .decimal .form)
  else .ok text

/-- PHP's `checkdate`. -/
def checkdate (mo d y : Nat) : Bool :=
  decide (1 ≤ y ∧ y ≤ 32767) && decide (Exists y mo d)

def checkDateParts (date : Nat × Nat × Nat) (tag : Tag) : Except ProtocolException Bool :=
  let (y, mo, d) := date
  if 12 < mo ∨ 31 < d then .error (.malformed tag .monthAndDay)
  else if y = 0 ∨ mo = 0 ∨ d = 0 then .ok false
  else if checkdate mo d y = false then .error (.malformed tag .calendarDate)
  else .ok true

def checkTimeOfDay (clock : Nat × Nat × Nat) (tag : Tag) : Except ProtocolException Unit :=
  let (h, mi, s) := clock
  if 23 < h ∨ 59 < mi ∨ 59 < s then .error (.malformed tag .timeOfDay) else .ok ()

def date (text : Text) : Except ProtocolException Text :=
  if text ∈ infinities then .ok text
  else
    match reDate text with
    | none => .error (.malformed .date .form)
    | some m => (checkDateParts m .date).map fun _ => text

/-- A zero year, month or day. -/
def hasZero (date : Nat × Nat × Nat) : Bool :=
  date.1 = 0 || date.2.1 = 0 || date.2.2 = 0

def dateIsSentinel (text : Text) : Bool :=
  if text ∈ infinities then true else (reDate text).any hasZero

def time (text : Text) : Except ProtocolException Text :=
  match reTime text with
  | none => .error (.malformed .time .form)
  | some (mi, s) =>
    if 59 < mi ∨ 59 < s then .error (.malformed .time .minutesAndSeconds) else .ok text

/-- The checks behind both timestamps' regular expressions. -/
def checkStamp (tag : Tag) (text : Text) (date clock : Nat × Nat × Nat) :
    Except ProtocolException Text :=
  (checkDateParts date tag).bind fun _ => (checkTimeOfDay clock tag).map fun _ => text

def timestamp (text : Text) : Except ProtocolException Text :=
  if text ∈ infinities then .ok text
  else
    match reTimestamp text with
    | none => .error (.malformed .timestamp .form)
    | some (date, clock) => checkStamp .timestamp text date clock

def timestampIsInstant (text : Text) : Bool :=
  (reTimestamp text).any fun m => !hasZero m.1

def timestamptz (text : Text) : Except ProtocolException Text :=
  if text ∈ infinities ∨ text = zeroDatetime then .ok text
  else
    match reTimestamptz text with
    | none => .error (.malformed .timestamptz .form)
    | some (date, clock) => checkStamp .timestamptz text date clock

def timestamptzIsInstant (text : Text) : Bool :=
  (reTimestamptz text).any fun m => !hasZero m.1

end FerroEngine.CanonicalText
