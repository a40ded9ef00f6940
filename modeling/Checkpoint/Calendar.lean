import Checkpoint.Text.Number

/-! # Calendar

Instants as UTC dates of the proleptic Gregorian calendar. Days are counted within eras of 400
years (146,097 days), which all look alike; inside an era years begin in March, so that the leap
day is the last of its year. -/
namespace Checkpoint

/-- A day of the proleptic Gregorian calendar. -/
structure Date where
  year : Int
  month : Nat
  day : Nat
  deriving DecidableEq, Repr

/-- A day and the time of day, to the millisecond. -/
structure DateTime where
  date : Date
  hour : Nat
  minute : Nat
  second : Nat
  millisecond : Nat
  deriving DecidableEq, Repr

namespace Date

/-- The date `days` days after 1970-01-01. -/
def ofDays (days : Int) : Date :=
  let z := days + 719468
  let era := Int.fdiv z 146097
  let dayOfEra := (Int.fmod z 146097).toNat
  let yearOfEra := (dayOfEra - dayOfEra / 1460 + dayOfEra / 36524 - dayOfEra / 146096) / 365
  let dayOfYear := dayOfEra - (365 * yearOfEra + yearOfEra / 4 - yearOfEra / 100)
  let marchMonth := (5 * dayOfYear + 2) / 153
  let month := if marchMonth < 10 then marchMonth + 3 else marchMonth - 9
  { year := yearOfEra + era * 400 + (if month ≤ 2 then 1 else 0)
    month
    day := dayOfYear - (153 * marchMonth + 2) / 5 + 1 }

end Date

namespace DateTime

def millisPerDay : Nat := 86400000

/-- The instant `millis` milliseconds after the start of 1970. -/
def ofMillis (millis : Int) : DateTime :=
  let time := (Int.fmod millis millisPerDay).toNat
  { date := .ofDays (Int.fdiv millis millisPerDay)
    hour := time / 3600000
    minute := time / 60000 % 60
    second := time / 1000 % 60
    millisecond := time % 1000 }

/-- The text `yyyy-MM-ddTHH:mm:ss.SSS`; years beyond 9999 are written in full. -/
def render (t : DateTime) : String :=
  Text.zeroPaddedInt 4 t.date.year ++ "-" ++ Text.zeroPadded 2 t.date.month ++ "-" ++
    Text.zeroPadded 2 t.date.day ++ "T" ++ Text.zeroPadded 2 t.hour ++ ":" ++
    Text.zeroPadded 2 t.minute ++ ":" ++ Text.zeroPadded 2 t.second ++ "." ++
    Text.zeroPadded 3 t.millisecond

end DateTime

end Checkpoint
