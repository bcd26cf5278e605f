import Marginalia.Comment.Capture
import Marginalia.Language

/-!
Comment tokens: comments found in the text alone, without a grammar. From left to right every token
is taken where the first one begins, and the search goes on behind it.
-/

namespace Marginalia.Comment

/-- The length of the text up to and with the first place where `close` stands. -/
def lengthThrough? (close text : Text) : Option Nat :=
  (Sequence.indexOf? close text).map (· + close.length)

/-- The length of the rest of the line. -/
def lineLength (text : Text) : Nat := (text.takeWhile (· != '\n')).length

/-- The length of a stretch that begins and ends with the same mark, if the text begins with one. -/
def fencedLength? (mark text : Text) : Option Nat :=
  if mark.isPrefixOf text then
    (lengthThrough? mark (text.drop mark.length)).map (mark.length + ·)
  else none

/-- The length of the comment token that the text begins with. -/
def tokenLength? (language : Language) (text : Text) : Option Nat :=
  match language with
  | .java =>
    match text with
    | '/' :: '*' :: rest => (lengthThrough? "*/" rest).map (2 + ·)
    | '/' :: '/' :: rest => some (2 + lineLength rest)
    | _ => none
  | .python =>
    match text with
    | '#' :: rest => some (1 + lineLength rest)
    | text => (fencedLength? "'''" text).or (fencedLength? "\"\"\"" text)
  | .pharo => fencedLength? "\"" text

/-- The places of the tokens: first character and end. `covered` characters still belong to the
token before. -/
def tokensFrom (language : Language) : (offset covered : Nat) → Text → List (Nat × Nat)
  | _, _, [] => []
  | offset, covered + 1, _ :: rest => tokensFrom language (offset + 1) covered rest
  | offset, 0, c :: rest =>
    match tokenLength? language (c :: rest) with
    | some (n + 1) => (offset, offset + n + 1) :: tokensFrom language (offset + 1) n rest
    | _ => tokensFrom language (offset + 1) 0 rest

def tokens (language : Language) (text : Text) : List (Nat × Nat) := tokensFrom language 0 0 text

def tokenKind (language : Language) (token : Text) : CaptureKind :=
  match language with
  | .python => if ("#" : Text).isPrefixOf token then .line else .docstring
  | _ => if ("//" : Text).isPrefixOf token then .line else .block

/-- The capture of a token. Its last character decides on the last row. -/
def tokenCapture (language : Language) (text : Text) (place : Nat × Nat) : Capture :=
  let (start, stop) := place
  let token := Sequence.slice text start stop
  { kind := tokenKind language token
    text := token
    offsets := place
    rows := (text.rowAt start, text.rowAt (stop - 1))
    columns := (text.columnAt start, text.columnAt (stop - 1) + 1)
    context := .unknown }

/-- The comments of a source by the look of its text. -/
def tokenCaptures (source : Source) : List Capture :=
  match Language.named? source.label with
  | some language => (tokens language source.text).map (tokenCapture language source.text)
  | none => []

end Marginalia.Comment
