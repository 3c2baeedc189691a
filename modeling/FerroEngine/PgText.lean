import FerroEngine.CivilCalendar
import FerroEngine.DecimalText
import FerroEngine.MessagePackReader

set_option autoImplicit false

/-! # Canonical text of PostgreSQL payloads

The renderers of `ferro-backend-pg/src/pgtext.rs` for numbers, dates and times.
-/

namespace FerroEngine.PgText

open DecimalText CivilCalendar
open MessagePackReader (bigEndianValue signed)

inductive What where
  | date
  | time
  | timestamp
  | timestamptz
  deriving DecidableEq, Repr

/-- `PoolError::Backend`, and `PoolError::Unsupported` for a year. -/
inductive PoolError where
  /-- `numeric: payload is {} bytes, shorter than the 8-byte header` -/
  | shortHeader (len : Nat)
  /-- `numeric: unknown sign word {other:#06x}` -/
  | unknownSign (sign : Nat)
  /-- `numeric: negative ndigits {ndigits}` -/
  | negativeNdigits (ndigits : Int)
  /-- `numeric: ndigits {ndigits} implies a {want}-byte payload, got {}` -/
  | numericLength (ndigits : Int) (want got : Nat)
  /-- `numeric: display scale {dscale} exceeds PG's maximum {MAX_DSCALE}` -/
  | displayScale (dscale : Nat)
  /-- `numeric: base-10000 digit {d} at index {i} is outside 0..=9999` -/
  | digitRange (d : Int) (i : Nat)
  /-- `{what}: expected a 4-byte payload, got {}` -/
  | payloadLength (what : What) (want got : Nat)
  /-- `time: negative time-of-day` -/
  | negativeTime (us : Int)
  /-- `time: time-of-day exceeds the legal PG time maximum` -/
  | timeMaximum (us : Int)
  /-- `{what}: proleptic year {y} has no canonical YYYY-MM-DD form` -/
  | year (what : What) (y : Int)
  deriving DecidableEq, Repr

/-! ## Numbers -/

def signPos : Nat := 0x0000

def signNeg : Nat := 0x4000

def signNan : Nat := 0xC000

def signPinf : Nat := 0xD000

def signNinf : Nat := 0xF000

def maxDscale : Nat := 0x3FFF

def nan : Text := [78, 97, 78]

def infinityText : Text := [73, 110, 102, 105, 110, 105, 116, 121]

/-- The characters of one base-10000 group. -/
def groupChars (dig : Nat) : Text :=
  [digitByte (dig / 1000), digitByte (dig / 100 % 10), digitByte (dig / 10 % 10),
    digitByte (dig % 10)]

/-- The loop of `push_group` over the characters that are taken. -/
def pushChars : Bool → Text → Text
  | _, [] => []
  | started, c :: chars =>
    if started = false ∧ c = 48 ∧ chars ≠ [] then pushChars started chars
    else c :: pushChars true chars

def pushGroup (dig take : Nat) (stripLeading : Bool) : Text :=
  pushChars (!stripLeading) ((groupChars dig).take take)

/-- `raw[8..].chunks_exact(2)`. -/
def words : Text → List Int
  | a :: b :: rest => signed 2 (bigEndianValue [a, b]) :: words rest
  | _ => []

def checkDigits : Nat → List Int → Except PoolError (List Nat)
  | _, [] => .ok []
  | i, d :: rest =>
    if 0 ≤ d ∧ d ≤ 9999 then (checkDigits (i + 1) rest).map (d.toNat :: ·)
    else .error (.digitRange d i)

/-- The integer part; groups past the last digit are zeros. -/
def integerGroups (digits : List Nat) : Nat → Nat → Text
  | _, 0 => []
  | i, groups + 1 =>
    pushGroup ((digits[i]?).getD 0) 4 (i == 0) ++ integerGroups digits (i + 1) groups

/-- The digit at an index that may be negative. -/
def digitAt (digits : List Nat) (idx : Int) : Nat :=
  if 0 ≤ idx then (digits[idx.toNat]?).getD 0 else 0

/-- The `while emitted < dscale` loop over what is left to emit. -/
def fractionGroups (digits : List Nat) (idx : Int) (left : Nat) : Text :=
  if left = 0 then []
  else pushGroup (digitAt digits idx) (min left 4) false ++
    fractionGroups digits (idx + 1) (left - 4)

def renderNumeric (weight : Int) (sign dscale : Nat) (digits : List Nat) : Text :=
  (if sign = signNeg then [45] else []) ++
    ((if weight < 0 then [48] else integerGroups digits 0 (weight.toNat + 1)) ++
      (if 0 < dscale then 46 :: fractionGroups digits (weight + 1) dscale else []))

def numericToText (raw : Text) : Except PoolError Text :=
  if raw.length < 8 then .error (.shortHeader raw.length)
  else
    let ndigits := signed 2 (bigEndianValue (raw.take 2))
    let weight := signed 2 (bigEndianValue ((raw.drop 2).take 2))
    let sign := bigEndianValue ((raw.drop 4).take 2)
    let dscale := bigEndianValue ((raw.drop 6).take 2)
    if sign = signNan then .ok nan
    else if sign = signPinf then .ok infinityText
    else if sign = signNinf then .ok (45 :: infinityText)
    else if sign ≠ signPos ∧ sign ≠ signNeg then .error (.unknownSign sign)
    else if ndigits < 0 then .error (.negativeNdigits ndigits)
    else if raw.length ≠ 8 + 2 * ndigits.natAbs then
      .error (.numericLength ndigits (8 + 2 * ndigits.natAbs) raw.length)
    else if maxDscale < dscale then .error (.displayScale dscale)
    else (checkDigits 0 (words (raw.drop 8))).map (renderNumeric weight sign dscale)

/-! ## Dates and times -/

def pgEpochUnixDays : Int := 10957

def usPerDay : Int := 86400000000

def usPerHour : Int := 3600000000

def usPerMinute : Int := 60000000

def usPerSecond : Int := 1000000

/-- `"infinity"`. -/
def infinity : Text := [105, 110, 102, 105, 110, 105, 116, 121]

/-- `{n:0width}` of an `i64`. -/
def formatInt (width : Nat) (n : Int) : Text :=
  if n < 0 then 45 :: format (width - 1) n.natAbs else format width n.natAbs

def readI32 (what : What) (raw : Text) : Except PoolError Int :=
  if raw.length = 4 then .ok (signed 4 (bigEndianValue raw))
  else .error (.payloadLength what 4 raw.length)

def readI64 (what : What) (raw : Text) : Except PoolError Int :=
  if raw.length = 8 then .ok (signed 8 (bigEndianValue raw))
  else .error (.payloadLength what 8 raw.length)

def civilFromPgDays (pgDays : Int) : Int × Int × Int :=
  let z := pgDays + pgEpochUnixDays + 719468
  let era := z / 146097
  let doe := z % 146097
  let yoe := (doe - doe / 1460 + doe / 36524 - doe / 146096) / 365
  let y := yoe + era * 400
  let doy := doe - (365 * yoe + yoe / 4 - yoe / 100)
  let mp := (5 * doy + 2) / 153
  let d := doy - (153 * mp + 2) / 5 + 1
  let m := if mp < 10 then mp + 3 else mp - 9
  (if m ≤ 2 then y + 1 else y, m, d)

def canonicalDate (what : What) (date : Int × Int × Int) : Except PoolError Text :=
  let (y, m, d) := date
  if 1 ≤ y ∧ y ≤ 9999 then
    .ok (formatInt 4 y ++ 45 :: (formatInt 2 m ++ 45 :: formatInt 2 d))
  else .error (.year what y)

def fmtTimeOfDay (us : Int) : Text :=
  let h := us / usPerHour
  let mi := us % usPerHour / usPerMinute
  let s := us % usPerMinute / usPerSecond
  let frac := us % usPerSecond
  let clock := formatInt 2 h ++ 58 :: (formatInt 2 mi ++ 58 :: formatInt 2 s)
  if frac = 0 then clock else clock ++ 46 :: formatInt 6 frac

def dateToText (raw : Text) : Except PoolError Text :=
  (readI32 .date raw).bind fun days =>
    if days = 2 ^ 31 - 1 then .ok infinity
    else if days = -2 ^ 31 then .ok (45 :: infinity)
    else canonicalDate .date (civilFromPgDays days)

def timeToText (raw : Text) : Except PoolError Text :=
  (readI64 .time raw).bind fun us =>
    if us < 0 then .error (.negativeTime us)
    else if usPerDay < us then .error (.timeMaximum us)
    else .ok (fmtTimeOfDay us)

def timestampSentinel (us : Int) : Option Text :=
  if us = 2 ^ 63 - 1 then some infinity
  else if us = -2 ^ 63 then some (45 :: infinity)
  else none

def splitTimestamp (what : What) (us : Int) : Except PoolError (Text × Text) :=
  (canonicalDate what (civilFromPgDays (us / usPerDay))).map fun date =>
    (date, fmtTimeOfDay (us % usPerDay))

/-- The two timestamps, by what stands around the time. -/
def stampToText (what : What) (separator : UInt8) (ending raw : Text) : Except PoolError Text :=
  (readI64 what raw).bind fun us =>
    match timestampSentinel us with
    | some sentinel => .ok sentinel
    | none => (splitTimestamp what us).map fun p => p.1 ++ separator :: (p.2 ++ ending)

def timestampToText : Text → Except PoolError Text :=
  stampToText .timestamp 32 []

def timestamptzToText : Text → Except PoolError Text :=
  stampToText .timestamptz 84 [90]

end FerroEngine.PgText
