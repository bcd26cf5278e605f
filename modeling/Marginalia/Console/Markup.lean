import Marginalia.Record.Basic
import Marginalia.Text.Blank

/-!
What is printed on the console: lines with markup in square brackets, and tables of records.
-/

namespace Marginalia

inductive ConsoleItem where
  | line (text : Text)
  | table (title : Option Text) (headers : List Text) (rows : List (List Text))
  deriving DecidableEq, Repr

namespace Markup

/-- A character that may follow the bracket of a mark. -/
def startsMark (c : Char) : Bool :=
  ('a' ≤ c && c ≤ 'z') || c == '#' || c == '/' || c == '@'

/-- The length of the mark that the text begins with: up to the first closing bracket, with no other
opening one inside. -/
def markLength? : Text → Option Nat
  | '[' :: c :: rest =>
    let body := rest.takeWhile fun d => d != '[' && d != ']'
    if startsMark c && (rest.drop body.length).head? == some ']' then some (body.length + 3)
    else none
  | _ => none

def backslashes (n : Nat) : Text := List.replicate n '\\'

/-- The text with marks made harmless. `held` backslashes have been read and not yet written;
`copied` characters still belong to a mark. -/
def escapeFrom : (held copied : Nat) → Text → Text
  | held, _, [] => backslashes held
  | _, copied + 1, c :: rest => c :: escapeFrom 0 copied rest
  | held, 0, c :: rest =>
    if c = '\\' then escapeFrom (held + 1) 0 rest
    else match markLength? (c :: rest) with
      | some (n + 1) => backslashes (2 * held + 1) ++ c :: escapeFrom 0 n rest
      | _ => backslashes held ++ c :: escapeFrom 0 0 rest

/-- A single backslash at the end is doubled, so that it escapes nothing printed after it. -/
def closeEnd (t : Text) : Text :=
  if ("\\" : Text).isSuffixOf t && !("\\\\" : Text).isSuffixOf t then t ++ ['\\'] else t

/-- The text as it has to be written to be printed as it is. -/
def escape (t : Text) : Text := closeEnd (escapeFrom 0 0 t)

def red (t : Text) : ConsoleItem := .line ("[red]" ++ t ++ "[/red]")

/-- A message about something that went wrong. -/
def error (message : Text) : ConsoleItem := red (escape message)

end Markup

namespace Record

def commaJoined (ts : List Text) : Text := (", ".toList).intercalate ts

/-- The widest content that is shown. -/
def shownWidth : Nat := 80

/-- The content on one line, cut off where it gets too long. -/
def shownContent (content : Text) : Text :=
  let t := [' '].intercalate content.words
  if shownWidth < t.length then t.take (shownWidth - 3) ++ "..." else t

/-- The row of a record in a table. Lines are counted from one there. -/
def shownRow (r : Record) : List Text := [
  Text.ofInt r.id,
  r.level.name,
  Text.ofInt (r.rows.1 + 1) ++ '-' :: Text.ofInt (r.rows.2 + 1),
  r.className,
  Markup.escape (commaJoined r.tags),
  Markup.escape (shownContent r.content)]

/-- The table of some records and their number. -/
def shown (title : Option Text) (rs : List Record) : List ConsoleItem := [
  .table title ["id", "level", "lines", "class", "type", "content"] (rs.map shownRow),
  .line ("(" ++ Text.ofNat rs.length ++ " rows)")]

end Record

end Marginalia
