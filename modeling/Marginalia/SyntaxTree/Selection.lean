import Marginalia.SyntaxTree.Context
import Marginalia.Text.Utf8

/-!
The comments and docstrings of a syntax tree, and their captures.
-/

namespace Marginalia

/-- The statement opens the body of the module or of a declaration: it is the first child there,
comments included. -/
def Cursor.opensBody (statement : Cursor) : Bool :=
  statement.kind == "expression_statement" && statement.before.isEmpty &&
    match statement.parent? with
    | none => false
    | some body =>
      body.kind == "module" ||
        (body.kind == "block" && body.focus.label.field == some "body" &&
          match body.parent? with
          | none => false
          | some owner =>
            owner.kind == "function_definition" || owner.kind == "class_definition")

def Cursor.isDocstring (c : Cursor) : Bool :=
  c.kind == "string" && match c.parent? with
    | some statement => statement.opensBody
    | none => false

/-- What a node is captured as. -/
def Language.captureKind? (language : Language) (c : Cursor) : Option CaptureKind :=
  match language with
  | .java =>
    if c.kind == "line_comment" then some .line
    else if c.kind == "block_comment" then some .block
    else none
  | .python =>
    if c.kind == "comment" then some .line
    else if c.isDocstring then some .docstring
    else none
  | .pharo => none

namespace SyntaxTree

/-- The nodes that are captured as one kind, in source order. -/
def ofKind (language : Language) (t : SyntaxTree) (kind : CaptureKind) :
    List (CaptureKind × Cursor) :=
  (t.cursors.filter fun c => language.captureKind? c == some kind).map fun c => (kind, c)

/-- Where a node starts earlier, or starts there and ends earlier. -/
def rangeBefore (a b : Nat × Nat) : Bool := a.1 < b.1 || (a.1 == b.1 && a.2 < b.2)

/-- The captured nodes, one for each range of bytes, in the order of the ranges. Line comments are
looked at first and docstrings last. -/
def selection (language : Language) (t : SyntaxTree) : List (CaptureKind × Cursor) :=
  let found := [CaptureKind.line, .block, .docstring].flatMap (t.ofKind language)
  Sequence.sort (fun a b => rangeBefore a.2.focus.range b.2.focus.range)
    (Sequence.distinctBy (·.2.focus.range) found)

/-- The number of characters among the first bytes of a line. -/
def characterColumn (line : Bytes) (column : Nat) : Nat :=
  (Bytes.decodeDropping (line.take column)).length

/-- The capture of a stretch of `source`. A stretch that ends at the start of a row ends on the row
before. There is none if a row is not in the source. -/
def captureOf? (source : Bytes) (kind : CaptureKind) (start stop : Position) (context : Context) :
    Option Capture := do
  let lines := Sequence.split (10 : UInt8) source
  let (lastRow, lastColumn) ←
    if stop.column = 0 && start.row < stop.row then
      lines[stop.row - 1]?.map fun line => (stop.row - 1, line.length)
    else some (stop.row, stop.column)
  let lastRow := min lastRow (lines.length - 1)
  let firstLine ← lines[start.row]?
  let lastLine ← lines[lastRow]?
  some {
    kind
    text := Bytes.decodeReplacing (Sequence.slice source start.offset stop.offset)
    offsets := (start.offset, stop.offset)
    rows := (start.row, lastRow)
    columns := (characterColumn firstLine start.column, characterColumn lastLine lastColumn)
    context }

/-- The captures of a tree. The bytes at hand are those that the root covers, while the places of
the nodes count from the start of the source; they agree if the root starts there. -/
def captures? (language : Language) (t : SyntaxTree) : Option (List Capture) :=
  (t.selection language).mapM fun (kind, c) =>
    captureOf? t.label.text kind c.focus.label.start c.focus.label.stop (c.context (some language))

end SyntaxTree

end Marginalia
