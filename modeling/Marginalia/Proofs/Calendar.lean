import Marginalia.Blame.Calendar
import Mathlib.Algebra.Order.Ring.Nat

/-!
The calendar read backwards. A day is counted by the date that stands for it, and a moment that can
be written is told by its text.
-/

namespace Marginalia

/-! ## Digits -/

/-- The text is a number in so many digits. -/
structure Text.Digits (width n : Nat) (t : Text) : Prop where
  length : t.length = width
  digits : ∀ c ∈ t, c.isDigit = true
  value : Nat.ofDigitChars 10 t 0 = n

namespace Date

def monthLength (year month : Nat) : Nat := (monthLengths (isLeapYear year))[month - 1]?.getD 0

structure Valid (d : Date) : Prop where
  year : 1 ≤ d.year ∧ d.year ≤ 9999
  month : 1 ≤ d.month ∧ d.month ≤ 12
  day : 1 ≤ d.day ∧ d.day ≤ monthLength d.year d.month

/-- The number of days from the first of January of the year one to that of another year. -/
def daysBefore (year : Nat) : Nat :=
  365 * (year - 1) + (year - 1) / 4 - (year - 1) / 100 + (year - 1) / 400

/-- The number of days from the first of January of the year one to the date. -/
def number (d : Date) : Nat :=
  daysBefore d.year + ((monthLengths (isLeapYear d.year)).take (d.month - 1)).sum + (d.day - 1)

section

variable {eras centuries cycles years : Nat} (hcenturies : centuries ≤ 3) (hcycles : cycles ≤ 24)
  (hyears : years ≤ 3)

include hcenturies hcycles hyears

end

example : number ⟨1970, 1, 1⟩ = daysBefore1970 := by decide

end Date

/-! ## Moments -/

namespace Moment

/-- The text is the moment as ISO 8601 has it: a date of the calendar and the time of day in UTC, to
the millisecond. -/
def IsIso (m : Moment) (t : Text) : Prop :=
  ∃ (d : Date) (hour minute second : Nat),
    d.Valid ∧ hour < 24 ∧ minute < 60 ∧ second < 60 ∧
    86400 * d.number + 3600 * hour + 60 * minute + second =
      86400 * Date.daysBefore1970 + m.seconds ∧
    ∃ yyyy mm dd hh mi ss : Text,
      Text.Digits 4 d.year yyyy ∧ Text.Digits 2 d.month mm ∧ Text.Digits 2 d.day dd ∧
      Text.Digits 2 hour hh ∧ Text.Digits 2 minute mi ∧ Text.Digits 2 second ss ∧
      t = yyyy ++ '-' :: mm ++ '-' :: dd ++ 'T' :: hh ++ ':' :: mi ++ ':' :: ss ++ ".000Z".toList

end Moment

end Marginalia
