import Marginalia.Failure.Cause
import Marginalia.Path

/-!
File trees: directories with named entries, files with their bytes, and links to paths. Reading a
path follows the links on it; resolving a path does the same as far as the path exists.
-/

namespace Marginalia

inductive FileTree where
  | file (content : Bytes)
  | link (target : Text)
  | directory (entries : List (Text × FileTree))
  deriving Inhabited

namespace FileTree

def childNamed? (name : Text) (entries : List (Text × FileTree)) : Option FileTree :=
  (entries.find? (·.1 == name)).map Prod.snd

/-- The entries with one more, in the place of an entry with that name or else at the end. -/
def putEntry (name : Text) (t : FileTree) : List (Text × FileTree) → List (Text × FileTree)
  | [] => [(name, t)]
  | e :: es => if e.1 = name then (name, t) :: es else e :: putEntry name t es

def entries : FileTree → List (Text × FileTree)
  | directory es => es
  | _ => []

/-- What stands at the end of a list of names. Links are not followed. -/
def node? : List Text → FileTree → Option FileTree
  | [], t => some t
  | name :: names, t => (childNamed? name t.entries).bind (node? names)

/-- The tree with a node at the end of a list of names. Missing directories are made. -/
def insert (t : FileTree) (names : List Text) (node : FileTree) : FileTree :=
  match names with
  | [] => node
  | name :: names =>
    let below := (childNamed? name t.entries).getD (directory [])
    directory (putEntry name (insert below names node) t.entries)

/-- The tree without the node at the end of a list of names. -/
def erase : List Text → FileTree → FileTree
  | [], _ => directory []
  | [name], t => directory (t.entries.filter (·.1 != name))
  | name :: names, t =>
    match childNamed? name t.entries with
    | some below => directory (putEntry name (erase names below) t.entries)
    | none => t

/-! ## Following links -/

/-- Where a path ends, free of links, and what stands there. -/
structure Place where
  names : List Text
  node : Option FileTree

/-- The names from which a link is followed. -/
def linkStart (at_ : List Text) (target : Path) : List Text := if target.absolute then [] else at_

/-- Goes down from the directory `at_`, name by name. Where a link stands, `follow` goes on. Only
the last name may be free. -/
def descend (tree : FileTree)
    (follow : List Text → List Text → Except SystemCause Place) (at_ : List Text) :
    List Text → Except SystemCause Place
  | [] => .ok ⟨at_, tree.node? at_⟩
  | name :: rest =>
    match tree.node? at_ with
    | some (directory entries) =>
      if name = Path.up then descend tree follow at_.dropLast rest
      else match childNamed? name entries with
        | some (link target) =>
          let target := Path.ofText target
          follow (linkStart at_ target) (target.names ++ rest)
        | some _ => descend tree follow (at_ ++ [name]) rest
        | none => if rest.isEmpty then .ok ⟨at_ ++ [name], none⟩ else .error .missing
    | _ => .error .notDirectory

/-- Goes down and follows at most `links` links. -/
def locateWithin (tree : FileTree) (links : Nat) (at_ names : List Text) :
    Except SystemCause Place :=
  match links with
  | 0 => .error .tooManyLinks
  | links + 1 => descend tree (locateWithin tree links) at_ names

def maxLinks : Nat := 40

/-- Where an absolute path leads. -/
def locate (tree : FileTree) (p : Path) : Except SystemCause Place :=
  locateWithin tree (maxLinks + 1) [] p.names

/-- The same for paths that need not exist: from the first missing name on, a double dot takes the
name before it back. -/
def descendLoosely (tree : FileTree) (follow : List Text → List Text → List Text)
    (at_ : List Text) : List Text → List Text
  | [] => at_
  | name :: rest =>
    if name = Path.up then descendLoosely tree follow at_.dropLast rest
    else match tree.node? (at_ ++ [name]) with
      | some (link target) =>
        let target := Path.ofText target
        follow (linkStart at_ target) (target.names ++ rest)
      | _ => descendLoosely tree follow (at_ ++ [name]) rest

def resolveWithin (tree : FileTree) (links : Nat) (at_ names : List Text) : List Text :=
  match links with
  | 0 => names.foldl Path.step at_
  | links + 1 => descendLoosely tree (resolveWithin tree links) at_ names

/-- The absolute path without links and double dots that a path stands for, seen from the
directory `base`. -/
def resolve (tree : FileTree) (base p : Path) : Path :=
  ⟨true, resolveWithin tree (maxLinks + 1) [] (base.join p).names⟩

/-! ## Reading and writing -/

def read (tree : FileTree) (p : Path) : Except SystemCause Bytes := do
  match (← tree.locate p).node with
  | some (file content) => .ok content
  | some _ => .error .isDirectory
  | none => .error .missing

/-- The path leads to a directory. -/
def isDirectory (tree : FileTree) (p : Path) : Bool :=
  match tree.locate p with
  | .ok ⟨_, some (directory _)⟩ => true
  | _ => false

/-- The entries of a directory. -/
def list (tree : FileTree) (p : Path) : Except SystemCause (List (Text × FileTree)) := do
  match (← tree.locate p).node with
  | some (directory entries) => .ok entries
  | some _ => .error .notDirectory
  | none => .error .missing

/-- The tree with the content of a file replaced. The directory of the file has to exist. -/
def write (tree : FileTree) (p : Path) (content : Bytes) : Except SystemCause FileTree := do
  let place ← tree.locate p
  match place.node with
  | some (directory _) => .error .isDirectory
  | _ => .ok (tree.insert place.names (file content))

/-- The tree with one more directory, in a directory that exists. -/
def makeDirectory (tree : FileTree) (p : Path) : Except SystemCause FileTree := do
  match p.names.getLast? with
  | none => .error .taken
  | some name =>
    let above ← tree.locate p.parent
    match above.node with
    | none => .error .missing
    | some (directory entries) =>
      if name = Path.up || (childNamed? name entries).isSome then .error .taken
      else .ok (tree.insert (above.names ++ [name]) (directory []))
    | some _ => .error .notDirectory

/-- The tree with the directory at the first `count` names and all that are missing above it, where
`base` is the directory that the names are seen from. An error comes with the path at which it
arose. -/
def makeDirectories (tree : FileTree) (base : Path) (absolute : Bool) (names : List Text)
    (count : Nat) : Except SystemError FileTree :=
  let shown : Path := ⟨absolute, names.take count⟩
  let settle (tree : FileTree) (cause : SystemCause) : Except SystemError FileTree :=
    if tree.isDirectory (base.join shown) then .ok tree else .error ⟨cause, shown.toText⟩
  match count, tree.makeDirectory (base.join shown) with
  | _, .ok tree => .ok tree
  | count + 1, .error .missing =>
    match makeDirectories tree base absolute names count with
    | .error e => .error e
    | .ok tree =>
      match tree.makeDirectory (base.join shown) with
      | .ok tree => .ok tree
      | .error cause => settle tree cause
  | _, .error cause => settle tree cause

end FileTree

end Marginalia
