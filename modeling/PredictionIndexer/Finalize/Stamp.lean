import PredictionIndexer.Finalize.Date
import PredictionIndexer.ForStd.Result

/-!
# Segment stamps

`ingester/crates/finalize/src/window.rs`: the `%Y%m%dT%H%M%S%f` stamp a segment filename starts
with, and the window start read back from such a name. The calendar is that of the source on
`i64`; no step of it leaves the type for the days of a `u64` of nanoseconds or of a four-digit year.
-/

namespace PredictionIndexer.Finalize

open Fallible

/-! ## The calendar, both ways -/

/-- `civil_from_days` on any day, also before the epoch. -/
def civilFromDaysI64 (days : Int) : Int × Nat × Nat :=
  let z := days + 719468
  let era := (if 0 ≤ z then z else z - 146096).tdiv 146097
  let dayOfEra := (z - era * 146097).toNat
  let yearOfEra := (dayOfEra - dayOfEra / 1460 + dayOfEra / 36524 - dayOfEra / 146096) / 365
  let year := (yearOfEra : Int) + era * 400
  let dayOfYear := dayOfEra - (365 * yearOfEra + yearOfEra / 4 - yearOfEra / 100)
  let mp := (5 * dayOfYear + 2) / 153
  let day := dayOfYear - (153 * mp + 2) / 5 + 1
  let month := if mp < 10 then mp + 3 else mp - 9
  (if month ≤ 2 then year + 1 else year, month, day)

/-- `days_from_civil`, its inverse. -/
def daysFromCivil (year : Int) (month day : Nat) : Int :=
  let year := if month ≤ 2 then year - 1 else year
  let era := (if 0 ≤ year then year else year - 399).tdiv 400
  let yearOfEra := (year - era * 400).toNat
  let dayOfYear := (153 * (if month > 2 then month - 3 else month + 9) + 2) / 5 + day - 1
  let dayOfEra := yearOfEra * 365 + yearOfEra / 4 - yearOfEra / 100 + dayOfYear
  era * 146097 + dayOfEra - 719468

/-! ## Stamps -/

/-- `segment_stamp`, as characters. -/
def stampChars (startNs : Nat) : List Char :=
  let (year, month, day) := civilFromDays (startNs / 86400000000000)
  let within := startNs % 86400000000000
  let hour := within / 3600000000000
  let minute := within / 60000000000 % 60
  let second := within / 1000000000 % 60
  let micros := within % 1000000000 / 1000
  zeroPadded 4 year ++ zeroPadded 2 month ++ zeroPadded 2 day ++ 'T' ::
    (zeroPadded 2 hour ++ zeroPadded 2 minute ++ zeroPadded 2 second ++ zeroPadded 6 micros)

def segmentStamp (startNs : Nat) : String := String.ofList (stampChars startNs)

/-- `a * b` on `u64`. -/
def mulU64 (mode : Arithmetic) (a b : Nat) : Except Halt Nat :=
  if a * b < 2 ^ 64 then .ok (a * b)
  else match mode with
    | .checked => .error .panic
    | .wrapping => .ok (a * b % 2 ^ 64)

/-- `parse` of a slice whose characters are digits and perhaps a `T`. -/
def parseField (cs : List Char) : Option Nat :=
  if cs.all Char.isDigit && !cs.isEmpty then some (Nat.ofDigitChars 10 cs 0) else none

/-- The fields of a stamp, once its date and time have their lengths. -/
structure StampFields where
  year : Nat
  month : Nat
  day : Nat
  hour : Nat
  minute : Nat
  second : Nat
  micros : Nat
deriving DecidableEq

def stampFields (date time : List Char) : Option StampFields := do
  let year ← parseField (date.take 4)
  let month ← parseField ((date.drop 4).take 2)
  let day ← parseField ((date.drop 6).take 2)
  let hour ← parseField (time.take 2)
  let minute ← parseField ((time.drop 2).take 2)
  let second ← parseField ((time.drop 4).take 2)
  let micros ← parseField ((time.drop 6).take 6)
  return { year, month, day, hour, minute, second, micros }

/-- The instant some fields stand for. -/
def instantOf (mode : Arithmetic) (f : StampFields) : Except Halt (Option Nat) :=
  if f.month = 0 ∨ f.month > 12 ∨ f.day = 0 ∨ f.day > 31 ∨ f.hour > 23 ∨ f.minute > 59 ∨
      f.second > 60 then pure none
  else
    let days := daysFromCivil f.year f.month f.day
    if days < 0 then pure none
    else do
      let base ← mulU64 mode days.toNat 86400000000000
      let seconds ← mulU64 mode (f.hour * 3600 + f.minute * 60 + f.second) 1000000000
      let sum ← mode.add base seconds
      return some (← mode.add sum (f.micros * 1000))

/-- `window_start_from_filename`, of the last part of the path. Behind the check of its characters
    the stamp is ASCII, so its length in bytes is its length. -/
def windowStartFromFilename (mode : Arithmetic) (name : String) : Except Halt (Option Nat) :=
  let stamp := name.toList.takeWhile (· ≠ '-')
  let date := stamp.takeWhile (· ≠ 'T')
  match stamp.dropWhile (· ≠ 'T') with
  | [] => pure none
  | _ :: time =>
    if date.length ≠ 8 ∨ time.length ≠ 12 ∨
        !stamp.all fun c => c.isDigit || c = 'T' then pure none
    else match stampFields date time with
      | none => pure none
      | some fields => instantOf mode fields

end PredictionIndexer.Finalize
