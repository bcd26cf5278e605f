import Marginalia.Batch.Basic
import Marginalia.Extraction.Comments
import Marginalia.FileTree.Walk

/-!
Extraction from files: of one file, and of all supported files below a directory.
-/

namespace Marginalia

/-- Where sources are read: the tree of files, and the directory that paths are seen from. -/
structure Files where
  tree : FileTree
  base : Path

namespace Files

def resolve (files : Files) (p : Path) : Path := files.tree.resolve files.base p

/-- The text that some bytes hold. -/
def textOf (bytes : Bytes) : Text := bytes.decodeReplacing.normalize

/-- The source at a path. Its language is the one given, or else what the path tells. -/
def readSource (files : Files) (p : Path) (language : Option Text) : Except Failure Source := do
  let language ← (Language.resolve language (some p)).mapError .language
  match files.tree.read (files.base.join p) with
  | .ok bytes => .ok ⟨(files.resolve p).toText, language.name, textOf bytes⟩
  | .error .missing => .error (.fileMissing p.toText)
  | .error cause => .error (.unreadable p.toText ⟨cause, p.toText⟩)

/-- How a path is stored: as seen from the root if it lies below it, in full if not, and by its name
alone where there is no root. -/
def relativePath (files : Files) (path : Path) (root : Option Path) : Text :=
  match root with
  | none => path.name
  | some root => ((path.relativeTo? (files.resolve root)).getD path).toText

/-- The records of one file. -/
def extractFile (files : Files) (grammar : Grammar) (settings : Settings) (p : Path)
    (root : Option Path) (language : Option Text) : Log × Except Failure (List Record) :=
  match files.readSource p language with
  | .error f => ([], .error f)
  | .ok s =>
    let (log, records) := s.extract grammar settings
    let relative := files.relativePath (Path.ofText s.path) root
    (log, (·.map (·.withRelativePath relative)) <$> records)

/-- The records of one file among many. A file that fails has none, and that is noted. -/
def extractAmong (files : Files) (grammar : Grammar) (settings : Settings) (root p : Path) :
    Log × FileRecords :=
  match files.extractFile grammar settings p (some root) none with
  | (log, .ok records) => (log, (p.toText, records))
  | (log, .error f) =>
    let note : LogEntry :=
      if f.isA .systemFailure then
        .warning ("Skipping unreadable file " ++ p.toText ++ ": " ++ f.message)
      else .error ("Comment extraction failed for " ++ p.toText)
    (log ++ [note], (p.toText, []))

/-- The records of all supported files below a root, with ids in the order of the files. -/
def extractTree (files : Files) (grammar : Grammar) (settings : Settings) (root : Path) :
    Log × Batch :=
  let root := files.resolve root
  let (walkLog, paths) := files.tree.walk [] files.base root
  let found := paths.map (files.extractAmong grammar settings root)
  let count := (found.flatMap fun f => f.2.2).length
  let summary : LogEntry := .info
    ("Extracted " ++ Text.ofNat count ++ " comment(s) from " ++ Text.ofNat paths.length ++
      " file(s)")
  (walkLog ++ found.flatMap Prod.fst ++ [summary], (Batch.ofList (found.map Prod.snd)).numbered)

end Files

end Marginalia
