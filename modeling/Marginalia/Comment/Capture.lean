import Marginalia.Level
import Marginalia.Text.Lines
import Marginalia.Text.Utf8

/-!
Captures: comments as they stand in the source, before their markers are taken off.
-/

namespace Marginalia

/-- A text to look for comments in. The label names its language; a label that names none is
allowed, and then no rules apply. -/
structure Source where
  path : Text
  label : Text
  text : Text
  deriving DecidableEq, Repr

namespace Source

def lines (s : Source) : List Text := s.text.lines

/-- The number of lines. -/
def lineCount (s : Source) : Nat := s.text.count '\n' + 1

/-- The length of the text in UTF-8. -/
def size (s : Source) : Nat := s.text.utf8Length

end Source

inductive CaptureKind where
  | line
  | block
  | docstring
  deriving DecidableEq, Repr

def CaptureKind.name : CaptureKind → Text
  | line => "line_comment"
  | block => "block_comment"
  | docstring => "docstring"

/-- What the code around a comment tells about it: the construct that it documents, and the name of
the class that it stands in. -/
structure Context where
  level : Level
  className : Text
  deriving DecidableEq, Repr

/-- The context of a comment about which nothing is known. -/
def Context.unknown : Context := ⟨.inline, []⟩

/-- A comment with its markers. `offsets` are those of its first character and of the end, in the
unit in which it was found. The last row is the row of its last character, and the columns are
counted in characters. -/
structure Capture where
  kind : CaptureKind
  text : Text
  offsets : Nat × Nat
  rows : Int × Int
  columns : Int × Int
  context : Context
  deriving DecidableEq, Repr

end Marginalia
