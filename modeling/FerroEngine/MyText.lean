import FerroEngine.DecimalText

set_option autoImplicit false

/-! # Canonical text of MySQL values

The renderers of `ferro-backend-mysql/src/mytext.rs` for numbers, dates and times.
-/

namespace FerroEngine.MyText

open DecimalText

/-- The driver's `Value`; a float is its bits. -/
inductive MyValue where
  | null
  | bytes (raw : Text)
  | int (n : Int64)
  | uint (n : UInt64)
  | float (bits : UInt32)
  | double (bits : UInt64)
  | date (year : UInt16) (month day hour minute second : UInt8) (micros : UInt32)
  | time (negative : Bool) (days : UInt32) (hours minutes seconds : UInt8) (micros : UInt32)

/-- `PoolError::Backend`. -/
inductive BackendError where
  /-- `cell arrived as a driver ... value` -/
  | wrongVariant
  /-- `date: cell carries a non-zero time part` -/
  | timePart
  /-- `out-of-domain time components` -/
  | timeOfDay
  /-- `time: magnitude exceeds the MySQL TIME range` -/
  | timeRange (totalUs : Nat)
  /-- `payload is not valid UTF-8` -/
  | notUtf8
  /-- `is not a MySQL DECIMAL rendering` -/
  | notDecimal
  deriving DecidableEq, Repr

def maxTimeUs : Nat := ((838 * 3600) + (59 * 60) + 59) * 1000000 + 999999

def usPerSecond : Nat := 1000000

/-- `"0000-00-00 00:00:00"`. -/
def zeroDatetime : Text :=
  [48, 48, 48, 48, 45, 48, 48, 45, 48, 48, 32, 48, 48, 58, 48, 48, 58, 48, 48]

/-- The components of a `Value::Date`. -/
structure Parts where
  year : Nat
  month : Nat
  day : Nat
  hour : Nat
  minute : Nat
  second : Nat
  micros : Nat
  deriving DecidableEq

def dateParts : MyValue → Except BackendError Parts
  | .date y mo d h mi s us =>
    .ok ⟨y.toNat, mo.toNat, d.toNat, h.toNat, mi.toNat, s.toNat, us.toNat⟩
  | _ => .error .wrongVariant

def canonicalDate (y mo d : Nat) : Text :=
  format 4 y ++ 45 :: (format 2 mo ++ 45 :: format 2 d)

def fmtTimeOfDay (h mi s us : Nat) : Text :=
  let clock := format 2 h ++ 58 :: (format 2 mi ++ 58 :: format 2 s)
  if us = 0 then clock else clock ++ 46 :: format 6 us

def checkTimeOfDay (h mi s us : Nat) : Except BackendError Unit :=
  if 23 < h ∨ 59 < mi ∨ 59 < s ∨ 1000000 ≤ us then .error .timeOfDay else .ok ()

def dateToText (v : MyValue) : Except BackendError Text :=
  (dateParts v).bind fun p =>
    if (p.hour, p.minute, p.second, p.micros) ≠ (0, 0, 0, 0) then .error .timePart
    else .ok (canonicalDate p.year p.month p.day)

def datetimeToText (v : MyValue) : Except BackendError Text :=
  (dateParts v).bind fun p =>
    (checkTimeOfDay p.hour p.minute p.second p.micros).map fun _ =>
      canonicalDate p.year p.month p.day ++
        32 :: fmtTimeOfDay p.hour p.minute p.second p.micros

def timestamptzToText (v : MyValue) : Except BackendError Text :=
  (dateParts v).bind fun p =>
    (checkTimeOfDay p.hour p.minute p.second p.micros).map fun _ =>
      if p = ⟨0, 0, 0, 0, 0, 0, 0⟩ then zeroDatetime
      else canonicalDate p.year p.month p.day ++
        84 :: (fmtTimeOfDay p.hour p.minute p.second p.micros ++ [90])

/-- The saturating operations of `u64`. -/
def saturate (n : Nat) : Nat :=
  min n (2 ^ 64 - 1)

def timeToText : MyValue → Except BackendError Text
  | .time neg days h mi s us =>
    (checkTimeOfDay h.toNat mi.toNat s.toNat us.toNat).bind fun _ =>
      let seconds := saturate (saturate (days.toNat * 86400) * usPerSecond)
      let hours := saturate (seconds + h.toNat * 3600 * usPerSecond)
      let minutes := saturate (hours + mi.toNat * 60 * usPerSecond)
      let totalUs := saturate (saturate (minutes + s.toNat * usPerSecond) + us.toNat)
      if maxTimeUs < totalUs then .error (.timeRange totalUs)
      else
        let hours := totalUs / (3600 * usPerSecond)
        let mins := totalUs % (3600 * usPerSecond) / (60 * usPerSecond)
        let secs := totalUs % (60 * usPerSecond) / usPerSecond
        let frac := totalUs % usPerSecond
        let sign : Text := if neg = true ∧ totalUs ≠ 0 then [45] else []
        .ok (sign ++ fmtTimeOfDay hours mins secs frac)
  | _ => .error .wrongVariant

/-- `text.strip_prefix(['-', '+'])`, or the text itself. -/
def stripSign : Text → Text
  | [] => []
  | c :: s => if c = 45 ∨ c = 43 then s else c :: s

/-- `body.split_once('.')`. -/
def splitOnce (body : Text) : Text × Option Text :=
  match body.dropWhile (· != 46) with
  | [] => (body, none)
  | _ :: frac => (body.takeWhile (· != 46), some frac)

theorem splitOnce_join (body : Text) :
    body = (splitOnce body).1 ++ ((splitOnce body).2.elim [] fun frac => 46 :: frac) := by
  unfold splitOnce
  have joined := List.takeWhile_append_dropWhile (p := (· != 46)) (l := body)
  cases rest : body.dropWhile (· != 46) with
  | nil => exact (List.append_nil body).symm
  | cons c frac =>
    have point : c = 46 := by
      have not := List.head?_dropWhile_not (· != 46) body
      rw [rest] at not
      simpa using not
    rw [rest, point] at joined
    exact joined.symm

def digitsOk (p : Text) : Bool :=
  !p.isEmpty && p.all isDigit

def decimalToText : MyValue → Except BackendError Text
  | .bytes raw =>
    if (String.fromUTF8? raw.toByteArray).isNone then .error .notUtf8
    else
      let (int, frac) := splitOnce (stripSign raw)
      if digitsOk int = false ∨ frac.any (fun f => !digitsOk f) then .error .notDecimal
      else .ok raw
  | _ => .error .wrongVariant

end FerroEngine.MyText
