import Marginalia.Text.Basic

/-!
Lines. Only the line feed ends a line, so a text with `n` of them has `n + 1` lines; the other
conventions are turned into it once, when a text is read.
-/

namespace Marginalia.Text

def lines (t : Text) : List Text := Sequence.split '\n' t

def unlines (ls : List Text) : Text := ['\n'].intercalate ls

/-- Every carriage return, with the line feed after it if there is one, becomes one line feed. -/
def unifyLineEnds : Text → Text
  | [] => []
  | '\r' :: '\n' :: rest => '\n' :: unifyLineEnds rest
  | c :: rest => (if c = '\r' then '\n' else c) :: unifyLineEnds rest

/-- The text as it is worked on: without one leading byte-order mark, with line feeds only. -/
def normalize : Text → Text
  | '\uFEFF' :: rest => unifyLineEnds rest
  | t => unifyLineEnds t

/-- The row that holds the character at `offset`: the number of line feeds in front of it. -/
def rowAt (t : Text) (offset : Nat) : Nat := (t.take offset).count '\n'

/-- The number of characters between the start of the line and `offset`. -/
def columnAt (t : Text) (offset : Nat) : Nat :=
  ((t.take offset).reverse.takeWhile (· != '\n')).length

end Marginalia.Text
