import Marginalia.FileTree.Basic
import Marginalia.Log

/-!
The walk through a directory: all files of a supported language below it, in the order of their
paths. Hidden directories, directories that hold no sources of one's own, and linked directories are
left out.
-/

namespace Marginalia.FileTree

/-- Directories that hold nothing written by hand. -/
def skippedNames : List Text :=
  ["node_modules", "__pycache__", "venv", "build", "dist", "target"]

def isSkipped (name : Text) : Bool := name.head? == some '.' || skippedNames.contains name

/-- What the walk meets: a file of a supported language, or an entry that cannot be looked at. -/
inductive Sighting where
  | source (path : Path)
  | refused (path : Path)
  deriving DecidableEq

/-- The order of names. -/
def nameBefore (a b : Text) : Bool := decide (a < b)

/-- The sightings of named entries in the order of the names. -/
def inOrder (found : List (Text × List Sighting)) : List Sighting :=
  (Sequence.sort (fun a b => nameBefore a.1 b.1) found).flatMap Prod.snd

mutual

/-- What is sighted at an entry and below it. The names in `denied` are those of entries that cannot
be looked at. -/
def walkEntry (denied : List Text) (path : Path) : FileTree → List Sighting
  | directory entries =>
    if denied.contains path.name then [.refused path]
    else if isSkipped path.name then []
    else inOrder (walkEntries denied path entries)
  | _ =>
    if denied.contains path.name then [.refused path]
    else if Language.isSupported path then [.source path]
    else []

def walkEntries (denied : List Text) (directory : Path) :
    List (Text × FileTree) → List (Text × List Sighting)
  | [] => []
  | (name, t) :: rest =>
    (name, walkEntry denied (directory.child name) t) :: walkEntries denied directory rest

end

def Sighting.source? : Sighting → Option Path
  | source p => some p
  | refused _ => none

def Sighting.note? : Sighting → Option LogEntry
  | source _ => none
  | refused p =>
    let e : SystemError := ⟨.denied, p.toText⟩
    some (.warning ("Skipping unreadable entry " ++ p.toText ++ ": " ++ e.message))

/-- What is sighted below a directory, itself hidden or not. -/
def sightings (denied : List Text) (path : Path) (entries : List (Text × FileTree)) :
    List Sighting :=
  inOrder (walkEntries denied path entries)

/-- The supported files below a path seen from `base`, and notes on what could not be read. -/
def walk (tree : FileTree) (denied : List Text) (base path : Path) : Log × List Path :=
  match tree.list (base.join path) with
  | .ok entries =>
    let seen := sightings denied path entries
    (seen.filterMap Sighting.note?, seen.filterMap Sighting.source?)
  | .error cause =>
    let e : SystemError := ⟨cause, path.toText⟩
    ([.warning ("Skipping unreadable directory " ++ path.toText ++ ": " ++ e.message)], [])

end Marginalia.FileTree
