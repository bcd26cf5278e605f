import Marginalia.Comment.Capture
import Marginalia.Language
import Marginalia.SyntaxTree.Cursor

/-!
What a comment documents, told from its place in the syntax tree. In this order: the declaration
whose body it opens as a docstring, the nearest declaration around it, the declaration that starts
at the latest on the next row, and the module if nothing but comments stands before it.
-/

namespace Marginalia

/-- The kinds of nodes that matter in a language. -/
structure Constructs where
  classes : List Text
  methods : List Text
  comments : List Text
  wrappers : List Text
  docstring : Option Text
  module : Option Text

def Language.constructs? : Language → Option Constructs
  | .java => some {
      classes := [
        "class_declaration", "interface_declaration", "enum_declaration", "record_declaration"]
      methods := ["method_declaration", "constructor_declaration"]
      comments := ["line_comment", "block_comment"]
      wrappers := []
      docstring := none
      module := none }
  | .python => some {
      classes := ["class_definition"]
      methods := ["function_definition"]
      comments := ["comment"]
      wrappers := ["decorated_definition"]
      docstring := some "string"
      module := some "module" }
  | .pharo => none

namespace Constructs

variable (k : Constructs)

def isComment (t : SyntaxTree) : Bool := k.comments.contains t.kind

def plainLevel? (t : SyntaxTree) : Option Level :=
  if k.classes.contains t.kind then some .class
  else if k.methods.contains t.kind then some .method
  else none

/-- The level of a declaration; a wrapper is what it wraps. -/
def declarationLevel? (t : SyntaxTree) : Option Level :=
  if k.wrappers.contains t.kind then (t.childBy? "definition").bind k.plainLevel?
  else k.plainLevel? t

/-- Nothing but comments stands before the node. -/
def opensParent (c : Cursor) : Bool := c.before.all k.isComment

/-- The statement that the node is the text of, if the node is a docstring in form. -/
def docstringStatement? (c : Cursor) : Option Cursor :=
  if k.docstring == some c.kind then c.parent?.filter (·.kind == "expression_statement") else none

/-- The level of the declaration whose body the docstring opens. -/
def docstringLevel? (c : Cursor) : Option Level := do
  let statement ← k.docstringStatement? c
  let body ← statement.parent?
  let owner ← body.parent?
  if body.kind == "block" && k.opensParent statement then k.declarationLevel? owner.focus else none

def enclosingLevel? (c : Cursor) : Option Level := c.ancestors.findSome? k.declarationLevel?

/-- The last row that a node occupies. One that ends at the start of a row ends on the row before. -/
def lastRow (t : SyntaxTree) : Nat :=
  let start := t.label.start
  let stop := t.label.stop
  if stop.column = 0 && start.row < stop.row then stop.row - 1 else stop.row

/-- The level of the declaration behind the node, if it starts on the next row at the latest. -/
def adjacentLevel? (c : Cursor) : Option Level := do
  let sibling ← c.after.head?
  if sibling.label.start.row ≤ lastRow c.focus + 1 then k.declarationLevel? sibling else none

/-- The node is a comment or a docstring in the run of comments that a module begins with. -/
def headsModule (c : Cursor) : Bool :=
  let top := (k.docstringStatement? c).getD c
  k.module.isSome && top.parent?.map Cursor.kind == k.module && k.opensParent top

def level (c : Cursor) : Level :=
  match (k.docstringLevel? c).or ((k.enclosingLevel? c).or (k.adjacentLevel? c)) with
  | some l => l
  | none => if k.headsModule c then .module else .inline

/-- The name of the nearest class around the node. -/
def className (c : Cursor) : Text :=
  match c.ancestors.find? fun t => k.classes.contains t.kind with
  | some t => ((t.childBy? "name").map fun n => n.label.text.decodeReplacing).getD []
  | none => []

def context (c : Cursor) : Context := ⟨k.level c, k.className c⟩

end Constructs

/-- The context of a node; where no kinds of nodes are known, nothing is known about it. -/
def Cursor.context (language : Option Language) (c : Cursor) : Context :=
  match language.bind Language.constructs? with
  | some k => k.context c
  | none => .unknown

end Marginalia
