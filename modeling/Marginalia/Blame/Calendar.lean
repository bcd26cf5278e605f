import Marginalia.Text.Basic

/-!
The Gregorian calendar, with days and seconds counted from fixed beginnings, and moments written as
date and time of day in UTC.
-/

namespace Marginalia

structure Date where
  year : Nat
  month : Nat
  day : Nat
  deriving DecidableEq, Repr

namespace Date

def isLeapYear (year : Nat) : Bool := year % 4 == 0 && (year % 100 != 0 || year % 400 == 0)

/-- The number of days in each month. -/
def monthLengths (leap : Bool) : List Nat :=
  [31, if leap then 29 else 28, 31, 30, 31, 30, 31, 31, 30, 31, 30, 31]

/-- Month and day of the month, both counted from one, for a day counted from zero. -/
def monthAndDay (month day : Nat) : List Nat → Nat × Nat
  | [] => (month, day + 1)
  | n :: ns => if day < n then (month, day + 1) else monthAndDay (month + 1) (day - n) ns

/-- The year and the day of the year, for the number of days since the beginning of the year one.
Whole spans of 400, 100, 4 and 1 years are taken off in turn; the last century of four and the last
year of four are longer than the others by a day. -/
def yearAndDay (days : Nat) : Nat × Nat :=
  let eras := days / 146097
  let inEra := days % 146097
  let centuries := min 3 (inEra / 36524)
  let inCentury := inEra - 36524 * centuries
  let cycles := inCentury / 1461
  let inCycle := inCentury % 1461
  let years := min 3 (inCycle / 365)
  (400 * eras + 100 * centuries + 4 * cycles + years + 1, inCycle - 365 * years)

/-- The date that many days after the first of January of the year one. -/
def ofDays (days : Nat) : Date :=
  let (year, day) := yearAndDay days
  let (month, day) := monthAndDay 1 day (monthLengths (isLeapYear year))
  ⟨year, month, day⟩

/-- The number of days from the first of January of the year one to that of 1970. -/
def daysBefore1970 : Nat := 719162

end Date

/-- A number filled up with zeros in front. -/
def Text.padded (width n : Nat) : Text :=
  let ds := Text.ofNat n
  List.replicate (width - ds.length) '0' ++ ds

/-- A moment, by the number of seconds since the beginning of 1970. -/
structure Moment where
  seconds : Nat
  deriving DecidableEq, Repr

namespace Moment

def date (m : Moment) : Date := Date.ofDays (Date.daysBefore1970 + m.seconds / 86400)

/-- Date and time of day with a point and three zeros for the fraction of a second. -/
def toText (m : Moment) : Text :=
  let d := m.date
  let s := m.seconds % 86400
  Text.padded 4 d.year ++ '-' :: Text.padded 2 d.month ++ '-' :: Text.padded 2 d.day ++
    'T' :: Text.padded 2 (s / 3600) ++ ':' :: Text.padded 2 (s / 60 % 60) ++
    ':' :: Text.padded 2 (s % 60) ++ ".000Z".toList

/-- The last moment of the year 9999. -/
def lastWritten : Nat := 253402300799

/-- The last moment that a signed number of 64 bits counts to. -/
def lastCounted : Nat := Nat.pow 2 63 - 1

end Moment

end Marginalia
