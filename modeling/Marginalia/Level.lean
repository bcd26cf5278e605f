import Marginalia.Text.Quoted

/-!
Levels: which construct of the source a comment documents.
-/

namespace Marginalia

inductive Level where
  | module
  | «class»
  | method
  | inline
  deriving DecidableEq, Repr, Inhabited

/-- The text names no level. -/
structure UnknownLevel where
  given : Text
  deriving DecidableEq, Repr

namespace Level

def all : List Level := [module, .class, method, inline]

def name : Level → Text
  | module => "module"
  | .class => "class"
  | method => "method"
  | inline => "inline"

def named? (t : Text) : Option Level := all.find? (·.name == t)

def ofName (t : Text) : Except UnknownLevel Level :=
  match named? t with
  | some l => .ok l
  | none => .error ⟨t⟩

end Level

def UnknownLevel.message (e : UnknownLevel) : Text :=
  e.given.quoted ++ " is not a valid CommentLevel"

end Marginalia
