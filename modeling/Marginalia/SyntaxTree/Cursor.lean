import Marginalia.SyntaxTree.Basic

/-!
Cursors: a node of a syntax tree together with its surroundings, so that one can look up to its
ancestors and sideways to its siblings.
-/

namespace Marginalia

/-- What surrounds a node inside its parent. The siblings before it are listed nearest first. -/
structure Frame where
  parent : NodeLabel
  before : List SyntaxTree
  after : List SyntaxTree
  deriving Repr

/-- The parent whose child at the open place is `t`. -/
def Frame.plug (f : Frame) (t : SyntaxTree) : SyntaxTree :=
  .node f.parent (f.before.reverse ++ t :: f.after)

/-- A node and the frames around it, innermost first. -/
structure Cursor where
  focus : SyntaxTree
  frames : List Frame
  deriving Repr

namespace Cursor

def kind (c : Cursor) : Text := c.focus.kind

def root (t : SyntaxTree) : Cursor := ⟨t, []⟩

def parent? (c : Cursor) : Option Cursor :=
  match c.frames with
  | [] => none
  | f :: fs => some ⟨f.plug c.focus, fs⟩

/-- The siblings before the node, nearest first. -/
def before (c : Cursor) : List SyntaxTree := (c.frames.head?.map Frame.before).getD []

/-- The siblings after the node. -/
def after (c : Cursor) : List SyntaxTree := (c.frames.head?.map Frame.after).getD []

def ancestorsOf : SyntaxTree → List Frame → List SyntaxTree
  | _, [] => []
  | t, f :: fs => f.plug t :: ancestorsOf (f.plug t) fs

/-- The nodes around the node, innermost first. -/
def ancestors (c : Cursor) : List SyntaxTree := ancestorsOf c.focus c.frames

/-- The child at a position. -/
def child? (c : Cursor) (i : Nat) : Option Cursor :=
  match c.focus with
  | .node label children =>
    children[i]?.map fun t =>
      ⟨t, ⟨label, (children.take i).reverse, children.drop (i + 1)⟩ :: c.frames⟩

/-- The node that a path of child positions leads to. -/
def follow? (c : Cursor) (path : List Nat) : Option Cursor := path.foldlM child? c

end Cursor

namespace SyntaxTree

mutual

/-- The cursors on a tree and on all nodes inside it, in source order. -/
def cursorsIn (frames : List Frame) : SyntaxTree → List Cursor
  | node label children => ⟨node label children, frames⟩ :: cursorsAmong label frames [] children

/-- The cursors on some children and inside them, where `before` are the earlier children. -/
def cursorsAmong (label : NodeLabel) (frames : List Frame) (before : List SyntaxTree) :
    List SyntaxTree → List Cursor
  | [] => []
  | t :: after =>
    cursorsIn (⟨label, before, after⟩ :: frames) t ++ cursorsAmong label frames (t :: before) after

end

/-- The cursors on all nodes of a tree. -/
def cursors (t : SyntaxTree) : List Cursor := cursorsIn [] t

end SyntaxTree

end Marginalia
