import Marginalia.Batch.Edit
import Marginalia.Batch.Stored
import Marginalia.Workspace.Session

/-!
Stores keep one batch between two pieces of work: in memory, or as a JSON text in a file.
-/

namespace Marginalia

inductive Store where
  | memory
  | file (path : Path)

/-- The edit that names a level; the name is checked, whether or not there is a record to edit. -/
def Edit.named (level : Option Text) (tags : Option (List Text)) : Except Failure Edit :=
  match level with
  | none => .ok ⟨none, tags⟩
  | some name =>
    match Level.ofName name with
    | .ok l => .ok ⟨some l, tags⟩
    | .error e => .error (.level e)

/-- The batch after an edit, and the edited record. -/
def Batch.editNamed (b : Batch) (id : Int) (level : Option Text) (tags : Option (List Text)) :
    Except Failure (Batch × Record) := do
  let e ← Edit.named level tags
  match b.edit? id e with
  | some edited => .ok edited
  | none => .error (.recordMissing id)

namespace Store

/-- A file with no byte but these is an empty store. -/
def isBlankByte (b : UInt8) : Bool := b == 32 || (9 ≤ b && b ≤ 13)

/-- The batch in the bytes of a store. -/
def ofBytes (path : Path) (bytes : Bytes) : Except Failure Batch :=
  if bytes.all isBlankByte then .ok .empty
  else (Batch.ofBytes bytes).orFail (.storeInvalid path.toText)

/-- The stored batch at a path. A missing file is an empty store. -/
def loadFile (path : Path) : Run Batch := do
  let files := (← get).files
  match files.tree.read (files.base.join path) with
  | .ok bytes => Run.noted ([], ofBytes path bytes)
  | .error .missing => do
    Run.note [.debug ("No stored comments at " ++ path.toText)]
    pure .empty
  | .error cause => throw (.storeUnreadable path.toText ⟨cause, path.toText⟩)

/-- The tree of files with a batch stored at a path. -/
def written (files : Files) (path : Path) (batch : Batch) : Except SystemError FileTree := do
  let above := path.parent
  let tree ←
    files.tree.makeDirectories files.base above.absolute above.names above.names.length
  (tree.write (files.base.join path) batch.dump.encode).mapError fun cause => ⟨cause, path.toText⟩

def saveFile (path : Path) (batch : Batch) : Run Unit := do
  let files := (← get).files
  match written files path batch with
  | .ok tree => do
    modify fun s => { s with files := { s.files with tree } }
    Run.note [.info
      ("Saved " ++ Text.ofNat batch.size ++ " file(s) to " ++ path.toText)]
  | .error e => throw (.storeUnwritable path.toText e)

def load : Store → Run Batch
  | memory => return (← get).memory
  | file path => loadFile path

def save (batch : Batch) : Store → Run Unit
  | memory => modify fun s => { s with memory := batch, saves := s.saves + 1 }
  | file path => saveFile path batch

/-- Edits one stored record by hand. -/
def update (store : Store) (id : Int) (level : Option Text) (tags : Option (List Text)) :
    Run Record := do
  let batch ← store.load
  let (batch, edited) ← Run.noted ([], batch.editNamed id level tags)
  match store with
  | memory => modify fun s => { s with memory := batch }
  | file path => saveFile path batch
  pure edited

end Store

end Marginalia
