import Marginalia.Text.Basic

/-!
Paths of files as values: a list of names below the root or below some starting directory.
Repeated slashes, single dots and a slash at the end carry no meaning and are dropped; a double
dot is a name like any other until the path is collapsed or looked up.
-/

namespace Marginalia

structure Path where
  absolute : Bool
  names : List Text
  deriving DecidableEq, Repr, Inhabited

namespace Path

def up : Text := ['.', '.']

def root : Path := ⟨true, []⟩

def here : Path := ⟨false, []⟩

/-- The names between the slashes that carry a meaning. -/
def namesOf (t : Text) : List Text :=
  (Sequence.split '/' t).filter fun n => n != [] && n != ['.']

def ofText (t : Text) : Path := ⟨t.head? == some '/', namesOf t⟩

def toText (p : Path) : Text :=
  let body : Text := ['/'].intercalate p.names
  if p.absolute then '/' :: body
  else if p.names.isEmpty then ['.']
  else body

/-- The last name; the root and the starting directory have none. -/
def name (p : Path) : Text := p.names.getLast?.getD []

/-- The end of a name from its last dot on, unless that dot is the first or the last character. -/
def suffixOf (name : Text) : Text :=
  let stem := Sequence.dropEndWhile (· != '.') name
  let tail := (name.reverse.takeWhile (· != '.')).reverse
  if 1 < stem.length && !tail.isEmpty then '.' :: tail else []

def suffix (p : Path) : Text := suffixOf p.name

def parent (p : Path) : Path := { p with names := p.names.dropLast }

def child (p : Path) (name : Text) : Path := { p with names := p.names ++ [name] }

/-- The second path as seen from the first: an absolute path stays itself. -/
def join (p q : Path) : Path := if q.absolute then q else { p with names := p.names ++ q.names }

/-- The path from `base` to `p`, if `p` lies at or below `base`, name by name. -/
def relativeTo? (p base : Path) : Option Path :=
  if p.absolute = base.absolute && base.names.isPrefixOf p.names then
    some ⟨false, p.names.drop base.names.length⟩
  else none

/-- One more name, where a double dot takes the last name back. The root has no parent. -/
def step (names : List Text) (name : Text) : List Text :=
  if name = up then names.dropLast else names ++ [name]

/-- The absolute path without double dots. -/
def collapse (p : Path) : Path := { p with names := p.names.foldl step [] }

/-- The order of paths: name by name, and each name by its code points. -/
def before (p q : Path) : Bool :=
  decide (p.names < q.names)

end Path

end Marginalia
