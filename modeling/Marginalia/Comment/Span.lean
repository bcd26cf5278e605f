import Marginalia.Comment.Capture
import Marginalia.Text.Blank

/-!
Spans: the rows and columns of the source on which a paragraph of a comment stands. The paragraph
has lost its markers, so its place is found again by looking for its text: first among the rows of
the cleaned comment, then in the rows of the source.
-/

namespace Marginalia

structure Span where
  rows : Int × Int
  columns : Int × Int
  deriving DecidableEq, Repr

namespace Comment

/-- The first row that is not blank, trimmed; the empty text if there is none. -/
def firstContent (rows : List Text) : Text :=
  ((rows.find? fun r => !r.allBlank).map Text.trim).getD []

/-- The rows of the paragraph behind the first one occur in the rows at hand, row by row. -/
def continues (paragraph rows : List Text) : Bool :=
  paragraph.length ≤ rows.length &&
    (paragraph.tail.zip rows.tail).all fun (wanted, row) => Sequence.occursIn wanted.trim row

/-- The rows at hand begin with the paragraph. -/
def startsParagraph (paragraph rows : List Text) : Bool :=
  Sequence.occursIn (firstContent paragraph) (rows.head?.getD []) && continues paragraph rows

/-- The first and the last row of the paragraph within the cleaned comment: where all its rows are
found, else where its first one is, else the whole comment. -/
def locateRows (cleaned paragraph : List Text) : Nat × Nat :=
  let first := firstContent paragraph
  let last := cleaned.length - 1
  if first.isEmpty then (0, last)
  else match Sequence.firstTail? (startsParagraph paragraph) cleaned with
    | some i => (i, i + (paragraph.length - 1))
    | none =>
      match cleaned.findIdx? (Sequence.occursIn first) with
      | some i => (i, min (i + (paragraph.length - 1)) last)
      | none => (0, last)

/-- The place of a text in a row of the source. Nothing is looked for without a text or below the
last row; a row that does not exist even when counted from the end is an error. -/
def findInRow (source : List Text) (row : Int) (wanted : Text) : Option (Option Nat) :=
  if wanted.isEmpty || source.length ≤ row then some none
  else (Sequence.atWrapped? source row).map (Sequence.indexOf? wanted)

/-- The span of a paragraph of a captured comment. There is none if the rows of the capture lie
before the source. -/
def recoverSpan? (capture : Capture) (cleaned paragraph : Text) (source : List Text) :
    Option Span := do
  let rows := paragraph.lines
  let (first, last) := locateRows cleaned.lines rows
  let bottom := min capture.rows.2 (source.length - 1 : Nat)
  let start := min (capture.rows.1 + first) bottom
  let stop := max (min (capture.rows.1 + last) bottom) start
  let opening ← findInRow source start (firstContent rows)
  let ending := firstContent rows.reverse
  let closing ← findInRow source stop ending
  some {
    rows := (start, stop)
    columns := (
      match opening with
      | some column => (column : Int)
      | none => capture.columns.1,
      match closing with
      | some column => ((column + ending.length : Nat) : Int)
      | none => capture.columns.2) }

end Comment

end Marginalia
