import Marginalia.Language
import Marginalia.Text.Lines

/-!
Paragraphs of a cleaned comment: the maximal runs of rows between the rows that separate them.
-/

namespace Marginalia.Comment

def isAsciiLetter (c : Char) : Bool := ('a' ≤ c && c ≤ 'z') || ('A' ≤ c && c ≤ 'Z')

/-- The row is one opening or closing tag: its only closing bracket is its last character, and a
letter follows the opening one or the slash behind that. -/
def isTagRow (row : Text) : Bool :=
  match row.trim with
  | '<' :: rest =>
    match (if rest.head? == some '/' then rest.drop 1 else rest) with
    | c :: rest => isAsciiLetter c && rest.dropWhile (· != '>') == ['>']
    | [] => false
  | _ => false

/-- Rows of tags separate paragraphs in this language. -/
def hasTagRows (language : Option Language) : Bool := language == some .java

/-- The row separates paragraphs. -/
def isBoundary (language : Option Language) (row : Text) : Bool :=
  row.allBlank || (hasTagRows language && isTagRow row)

def paragraphs (language : Option Language) (cleaned : Text) : List Text :=
  (Sequence.runs (isBoundary language) cleaned.lines).map fun rows => (Text.unlines rows).trim

end Marginalia.Comment
