import Marginalia.Text.Blank
import Marginalia.Text.Digit

/-!
Integers as people and other programs spell them: blanks around, a sign, leading zeros, and single
underscores between digits.
-/

namespace Marginalia.Text

def isAsciiDigit (c : Char) : Bool := '0' ≤ c && c ≤ '9'

/-- A sign, true for a minus, and what follows it. -/
def splitSign : Text → Bool × Text
  | '-' :: rest => (true, rest)
  | '+' :: rest => (false, rest)
  | t => (false, t)

def signed (negative : Bool) (n : Nat) : Int := if negative then -n else n

/-- The number that groups of digits write, with one underscore between two groups. -/
def groupedNat? (digit : Char → Bool) (t : Text) : Option Nat :=
  let groups := Sequence.split '_' t
  if groups.all (fun g => !g.isEmpty && g.all digit) then some (digitsValue groups.flatten) else none

/-- An integer typed on a command line, with the digits of any script. -/
def typedInt? (t : Text) : Option Int :=
  let (negative, body) := splitSign (trim t)
  (groupedNat? isDigit body).map (signed negative)

/-- An integer written as a string in a stored record or a setting: with ASCII digits, and zeros
alone behind a decimal point. -/
def storedInt? (t : Text) : Option Int :=
  let (negative, body) := splitSign (trim t)
  let whole := body.takeWhile (· != '.')
  let fraction := (body.dropWhile (· != '.')).drop 1
  if fraction.all (· == '0') then (groupedNat? isAsciiDigit whole).map (signed negative) else none

end Marginalia.Text
