import Marginalia.Proofs.Chronology
import Marginalia.Proofs.Enrichment
import Marginalia.Proofs.RawLines

/-!
The header of an answer. The date of a line is the first time that is found in the header; what the
line itself holds comes behind the header and is never looked at. A carriage return ends a line as a
line feed does, so one in the name of an author can set another time free in front of the one that
the header holds.
-/

namespace Marginalia

/-! ## Digits -/

namespace Text

variable {c : Char} {t : Text}

end Text

/-! ## Rows behind each other -/

namespace Bytes

end Bytes

namespace Blame

/-! ## Times in rows -/

section

variable {line digits : Text} {lines : List Bytes}

/-- The line holds a time, in the digits of any script, and nothing else. -/
def IsTimeLine (line : Text) : Prop :=
  ∃ digits, digits ≠ [] ∧ (∀ c ∈ digits, Text.isDigit c = true) ∧ line = timeKey ++ digits

/-- The seconds in a row of bytes that holds the time and nothing else. -/
def rowTime? (row : Bytes) : Option Nat := lineTime? row.decodeReplacing

/-- The first time in the rows that carriage returns and line feeds cut the lines into. -/
def setFree? (lines : List Bytes) : Option Nat := (lines.flatMap Bytes.rows).findSome? rowTime?

end

/-! ## Headers -/

/-- The header of an answer as it is printed: the lines in front of the first one that holds a time
and nothing else, the digits of that time, which are those of ASCII, and the lines behind. -/
structure Header where
  before : List Bytes
  digits : Text
  after : List Bytes
  whole : ∀ line ∈ before ++ after, 10 ∉ line
  first : ∀ line ∈ before, ¬ IsTimeLine line.decodeReplacing
  digits_ne : digits ≠ []
  ascii : ∀ c ∈ digits, Text.isAsciiDigit c = true

namespace Header

/-- The time that the header holds. Zeros may stand in front. -/
def seconds (h : Header) : Nat := Nat.ofDigitChars 10 h.digits 0

def lines (h : Header) : List Bytes := h.before ++ (timeKey ++ h.digits).encode :: h.after

/-- What the command prints of a line: the lines of the header, each with a line feed behind it,
then a tab and the content. -/
def printed (h : Header) (content : Bytes) : Bytes := h.lines.flatMap (· ++ [10]) ++ 9 :: content

/-- The time that is found: the first that is set free in front of the one that the header holds, or
else that one. -/
def found (h : Header) : Nat := (setFree? h.before).getD h.seconds

variable (h : Header)

end Header

/-! ## Lines that are not committed -/

namespace Header

variable (h : Header)

end Header

end Blame

end Marginalia
