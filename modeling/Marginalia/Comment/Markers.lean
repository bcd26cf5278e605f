import Marginalia.Language
import Marginalia.Text.Lines

/-!
Comment markers, and how they are taken off. This is done row by row and only at the ends of a row,
so that a row of the cleaned text is a stretch of the same row of the comment.
-/

namespace Marginalia.Comment

/-- How the markers of a comment are laid out. -/
inductive MarkerStyle where
  | block
  | slashes
  | hashes
  | docstring
  | quotes
  deriving DecidableEq, Repr

/-- The style that a comment of the language begins in, behind white space. -/
def MarkerStyle.of? (language : Language) (text : Text) : Option MarkerStyle :=
  let head := text.trimStart
  match language with
  | .java =>
    if ("/*" : Text).isPrefixOf head then some .block
    else if ("//" : Text).isPrefixOf head then some .slashes
    else none
  | .python => if ("#" : Text).isPrefixOf head then some .hashes else some .docstring
  | .pharo => some .quotes

/-! ## Block comments -/

/-- The row without a slash and the stars behind it. Where the stars end in another slash, the last
of them belongs to the closing marker and stays. One blank behind the stars goes with them. -/
def dropBlockOpen (row : Text) : Text :=
  match row.trimStart with
  | '/' :: '*' :: rest =>
    match rest.dropWhile (· == '*') with
    | '/' :: after => if rest.head? == some '*' then '*' :: '/' :: after else row
    | after => Text.dropBlank after
  | _ => row

/-- The row without the stars and the slash at its end and the white space around them. -/
def dropBlockClose (row : Text) : Text :=
  match row.trimEnd.reverse with
  | '/' :: '*' :: rest => ((rest.dropWhile (· == '*')).dropWhile Text.isBlank).reverse
  | _ => row

/-- The row without the one star that begins it and a blank behind the star, unless that star closes
the comment. -/
def dropBlockStar (row : Text) : Text :=
  match row.trimStart with
  | '*' :: '/' :: _ => row
  | '*' :: rest => Text.dropBlank rest
  | _ => row

def cleanBlock (rows : List Text) : List Text :=
  Sequence.mapRest dropBlockStar
    (Sequence.mapLast dropBlockClose (Sequence.mapFirst dropBlockOpen rows))

/-! ## Comments up to the end of the row -/

def dropSlashes (row : Text) : Text :=
  match row.trimStart with
  | '/' :: '/' :: rest => Text.dropBlank rest
  | _ => row

def dropHash (row : Text) : Text :=
  match row.trimStart with
  | '#' :: rest => Text.dropBlank rest
  | _ => row

/-! ## Docstrings -/

/-- The quotes of a docstring, longest first. -/
def docstringQuotes : List Text := ["\"\"\"", "'''", "\"", "'"]

def isStringPrefix (c : Char) : Bool := ("rRuUbBfF" : Text).contains c

/-- The quote that opens a docstring behind white space and at most two prefix letters, and the rest
of the row. -/
def openDocstring? (row : Text) : Option (Text × Text) :=
  let head := row.trimStart
  let body := head.dropWhile isStringPrefix
  if (head.takeWhile isStringPrefix).length ≤ 2 then
    (docstringQuotes.find? (·.isPrefixOf body)).map fun q => (q, body.drop q.length)
  else none

/-- The row without the quote at its end and the white space behind it. -/
def dropQuoteEnd (quote row : Text) : Text :=
  if quote.isSuffixOf row.trimEnd then row.trimEnd.take (row.trimEnd.length - quote.length)
  else row

/-- The smallest indent among the rows that are not blank. -/
def margin? (rows : List Text) : Option Nat :=
  ((rows.filter fun r => !r.allBlank).map Text.indent).min?

/-- The rows moved left together. The blank ones become empty; if all are blank, nothing changes. -/
def dedent (rows : List Text) : List Text :=
  match margin? rows with
  | some n => rows.map fun r => if r.allBlank then [] else r.drop n
  | none => rows

/-- All rows but the first moved left together. -/
def dedentTail : List Text → List Text
  | [] => []
  | row :: rows => row :: dedent rows

def cleanDocstring (rows : List Text) : List Text :=
  match openDocstring? (rows.head?.getD []) with
  | some (quote, rest) =>
    dedentTail (Sequence.mapLast (dropQuoteEnd quote) (Sequence.mapFirst (fun _ => rest) rows))
  | none => dedentTail (Sequence.mapLast (dropQuoteEnd "\"\"\"") rows)

/-! ## Comments in plain quotes -/

def dropOpenQuote (row : Text) : Text :=
  match row.trimStart with
  | '"' :: rest => rest
  | _ => row

def cleanQuotes (rows : List Text) : List Text :=
  Sequence.mapLast (dropQuoteEnd "\"") (Sequence.mapFirst dropOpenQuote rows)

/-! ## All styles -/

def MarkerStyle.clean : MarkerStyle → List Text → List Text
  | block => cleanBlock
  | slashes => List.map dropSlashes
  | hashes => List.map dropHash
  | docstring => cleanDocstring
  | quotes => cleanQuotes

/-- The text of a comment without its markers. A text in no known style stays as it is. -/
def clean (language : Option Language) (text : Text) : Text :=
  match language.bind fun l => MarkerStyle.of? l text with
  | some style => Text.unlines (style.clean text.lines)
  | none => text

end Marginalia.Comment
