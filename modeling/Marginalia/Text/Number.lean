import Marginalia.Number.Binary
import Marginalia.Text.Case
import Marginalia.Text.Integer

/-!
Numbers as settings spell them: a sign, digits with or without a point, an exponent, or one of the
words for the values that are not finite. Blanks may stand around, single underscores inside.
-/

namespace Marginalia.Text

/-- The exponent behind the digits, zero if nothing is left. -/
def exponent? : Text → Option Int
  | [] => some 0
  | c :: rest =>
    let (negative, digits) := splitSign rest
    if (c == 'e' || c == 'E') && !digits.isEmpty && digits.all isAsciiDigit then
      some (signed negative (digitsValue digits))
    else none

/-- A number in digits: at least one before or behind the point. -/
def digitsNumber? (negative : Bool) (t : Text) : Option Float :=
  let whole := t.takeWhile isAsciiDigit
  let rest := t.dropWhile isAsciiDigit
  let (fraction, rest) : Text × Text := match rest with
    | '.' :: rest => (rest.takeWhile isAsciiDigit, rest.dropWhile isAsciiDigit)
    | rest => ([], rest)
  if whole.isEmpty && fraction.isEmpty then none
  else (exponent? rest).map fun e =>
    Number.ofDecimal negative (digitsValue (whole ++ fraction)) (e - fraction.length)

/-- A number without blanks and underscores. -/
def plainNumber? (t : Text) : Option Float :=
  let (negative, body) := splitSign t
  let word := body.lower
  if word == "nan" then some (0.0 / 0.0)
  else if word == "inf" || word == "infinity" then
    some (if negative then -1.0 / 0.0 else 1.0 / 0.0)
  else digitsNumber? negative body

def storedNumber? (t : Text) : Option Float :=
  let groups := Sequence.split '_' t.trim
  if groups.all (!·.isEmpty) then plainNumber? groups.flatten else none

end Marginalia.Text
