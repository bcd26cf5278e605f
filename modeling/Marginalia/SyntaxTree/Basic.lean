import Marginalia.Text.Basic

/-!
Syntax trees as a grammar delivers them: named nodes in source order, each with the stretch of the
source that it covers.
-/

namespace Marginalia

/-- A place in a source: how many bytes come before it, how many lines, and how many bytes of its
own line. -/
structure Position where
  offset : Nat
  row : Nat
  column : Nat
  deriving DecidableEq, Repr, Inhabited

/-- What a node says of itself: its kind, the part that it plays in its parent, the stretch that it
covers, and the bytes there. -/
structure NodeLabel where
  kind : Text
  field : Option Text
  start : Position
  stop : Position
  text : Bytes
  deriving DecidableEq, Repr, Inhabited

inductive SyntaxTree where
  | node (label : NodeLabel) (children : List SyntaxTree)
  deriving Repr, Inhabited

namespace SyntaxTree

def label : SyntaxTree → NodeLabel
  | node label _ => label

def children : SyntaxTree → List SyntaxTree
  | node _ children => children

def kind (t : SyntaxTree) : Text := t.label.kind

/-- The first child that plays the part `field`. -/
def childBy? (t : SyntaxTree) (field : Text) : Option SyntaxTree :=
  t.children.find? fun c => c.label.field == some field

/-- The range of bytes that the node covers. -/
def range (t : SyntaxTree) : Nat × Nat := (t.label.start.offset, t.label.stop.offset)

end SyntaxTree

end Marginalia
