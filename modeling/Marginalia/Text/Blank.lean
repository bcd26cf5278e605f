import Marginalia.Text.Basic

/-!
White space: its characters, and texts trimmed or cut into words by it.
-/

namespace Marginalia.Text

/-- The white-space characters. The zero-width ones (U+200B, U+FEFF) are not among them. -/
def isBlank (c : Char) : Bool :=
  let n := c.toNat
  (0x09 ≤ n && n ≤ 0x0D) || (0x1C ≤ n && n ≤ 0x20) || n == 0x85 || n == 0xA0 || n == 0x1680 ||
    (0x2000 ≤ n && n ≤ 0x200A) || n == 0x2028 || n == 0x2029 || n == 0x202F || n == 0x205F ||
    n == 0x3000

def trimStart (t : Text) : Text := t.dropWhile isBlank

def trimEnd (t : Text) : Text := Sequence.dropEndWhile isBlank t

def trim (t : Text) : Text := trimEnd (trimStart t)

/-- The text has no character but white space. -/
def allBlank (t : Text) : Bool := t.all isBlank

/-- The number of white-space characters in front of the first other one. -/
def indent (t : Text) : Nat := (t.takeWhile isBlank).length

/-- The text without one leading white-space character, if there is one. -/
def dropBlank : Text → Text
  | [] => []
  | c :: rest => if isBlank c then rest else c :: rest

/-- The maximal stretches without white space. -/
def words (t : Text) : List Text := Sequence.runs isBlank t

end Marginalia.Text
