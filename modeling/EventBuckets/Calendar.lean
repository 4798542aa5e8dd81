import EventBuckets.Grid

/-!
# Times on the calendar

Times are shown as `1970-01-01T00:00:00Z` on the proleptic Gregorian calendar.

* `daysOfDate`, `dateOfDays`  days since the epoch and the date, both on years that begin in March,
                              so that the leap day is the last day of its year;
* `calendarText`              the text; a time outside of the years -262143 to 262142 is shown as
                              the plain number of seconds.
-/

namespace EventBuckets

structure Date where
  year : Int
  month : Int
  day : Int
deriving DecidableEq, Repr

/-- the number of days from the epoch to a date -/
def daysOfDate (d : Date) : Int :=
  let y := if d.month ≤ 2 then d.year - 1 else d.year
  let era := y / 400
  let yearOfEra := y % 400
  let monthFromMarch := (d.month + 9) % 12
  let dayOfYear := (153 * monthFromMarch + 2) / 5 + d.day - 1
  era * 146097 + (yearOfEra * 365 + yearOfEra / 4 - yearOfEra / 100 + dayOfYear) - 719468

/-- the date a number of days after the epoch -/
def dateOfDays (days : Int) : Date :=
  let z := days + 719468
  let era := z / 146097
  let dayOfEra := z % 146097
  let yearOfEra := (dayOfEra - dayOfEra / 1460 + dayOfEra / 36524 - dayOfEra / 146096) / 365
  let dayOfYear := dayOfEra - (365 * yearOfEra + yearOfEra / 4 - yearOfEra / 100)
  let monthFromMarch := (5 * dayOfYear + 2) / 153
  let day := dayOfYear - (153 * monthFromMarch + 2) / 5 + 1
  let month := if monthFromMarch < 10 then monthFromMarch + 3 else monthFromMarch - 9
  let year := yearOfEra + era * 400
  ⟨if month ≤ 2 then year + 1 else year, month, day⟩

/-- decimal digits with zeros in front up to a width -/
def zeroPadded (width n : Nat) : String :=
  let digits := toString n
  String.ofList (List.replicate (width - digits.length) '0') ++ digits

/-- four digits at least, and a sign outside of the years 0 to 9999 -/
def yearText (year : Int) : String :=
  if 0 ≤ year ∧ year ≤ 9999 then zeroPadded 4 year.toNat
  else (if year < 0 then "-" else "+") ++ zeroPadded 4 year.natAbs

def secondsPerDay : Int := 86400

/-- the first and last year with a calendar text -/
def firstYear : Int := -262143
def lastYear : Int := 262142

def calendarText (time : Int) : String :=
  let days := time / secondsPerDay
  let second := (time % secondsPerDay).toNat
  if daysOfDate ⟨firstYear, 1, 1⟩ ≤ days ∧ days ≤ daysOfDate ⟨lastYear, 12, 31⟩ then
    let date := dateOfDays days
    yearText date.year ++ "-" ++ zeroPadded 2 date.month.toNat ++ "-"
      ++ zeroPadded 2 date.day.toNat ++ "T" ++ zeroPadded 2 (second / 3600) ++ ":"
      ++ zeroPadded 2 (second / 60 % 60) ++ ":" ++ zeroPadded 2 (second % 60) ++ "Z"
  else toString time

end EventBuckets
