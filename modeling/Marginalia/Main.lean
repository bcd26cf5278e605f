import Marginalia.CommandLine.Commands

/-!
The program: it reads the files below the current directory, runs the command that the arguments
name, prints, and writes back the files that have changed. There is no grammar, no version history
and no network at hand, so comments are found by the look of the text, dates stay empty and
classifiers do not answer.
-/

namespace Marginalia

/-- The files of a tree, with the names that lead to them. -/
def FileTree.contents : FileTree → List (List Text × Bytes)
  | file content => [([], content)]
  | link _ => []
  | directory entries => within entries
where
  within : List (Text × FileTree) → List (List Text × Bytes)
    | [] => []
    | (name, t) :: rest => (t.contents.map fun (names, bs) => (name :: names, bs)) ++ within rest

/-- The files of the second tree that are not the same in the first. -/
def FileTree.changed (before after : FileTree) : List (List Text × Bytes) :=
  after.contents.filter fun (names, bs) =>
    match before.node? names with
    | some (file old) => old != bs
    | _ => true

namespace Program

/-- The variables that the settings are read from, with what their names begin with. -/
def variablePrefix : String := "COMMENT_MINER_"

def variableNames : List String := [
  "MAX_FILE_SIZE", "PARSE_TIMEOUT", "WORKERS", "ENRICH_COMMIT_DATES", "GIT_CONCURRENCY",
  "GIT_TIMEOUT", "CLASSIFIER_URL", "CLASSIFIER_TIMEOUT", "STORE_RELPATH"]

def environment : IO (List (Text × Text)) :=
  variableNames.filterMapM fun name => do
    return (← IO.getEnv (variablePrefix ++ name)).map fun value => (name.toList, value.toList)

/-- One entry of a directory, with all that is below it. -/
partial def readEntry (e : IO.FS.DirEntry) : IO FileTree := do
  match (← e.path.symlinkMetadata).type with
  | .dir => do
    let entries ← e.path.readDir
    let entries ← entries.toList.mapM fun below => do
      return (below.fileName.toList, ← readEntry below)
    return .directory entries
  | .symlink => return .link (← IO.FS.realPath e.path).toString.toList
  | _ => return .file (← IO.FS.readBinFile e.path).toList

def surroundings (files : Files) (environment : List (Text × Text)) : Surroundings where
  grammar := fun _ _ => .nothing
  dates := Blame.dates files.tree files.base fun _ _ => some (.notRun ⟨.missing, "git"⟩)
  send := fun _ => .unreachable
  environment
  changes := []
  interrupted := false
  scratch := fun suffix => Path.root.child ("scratch".toList ++ suffix)

def rowText (cells : List Text) : Text := ("  ".toList).intercalate cells

def printItem : ConsoleItem → IO Unit
  | .line t => IO.println (String.ofList t)
  | .table title headers rows => do
    if let some t := title then IO.println (String.ofList t)
    (headers :: rows).forM fun cells => IO.println (String.ofList (rowText cells))

def isShown (least : Severity) (e : LogEntry) : Bool :=
  match least, e.severity with
  | .info, .debug => false
  | .warning, .debug | .warning, .info => false
  | _, _ => true

def printEnding (log : Log) (e : Ending) : IO Unit := do
  let shown := match e.logLevel with
    | some least => log.filter (isShown least)
    | none => []
  shown.forM fun entry => IO.eprintln (String.ofList entry.message)
  e.console.forM printItem
  IO.print (String.ofList e.output)
  if let some f := e.failure then IO.eprintln (String.ofList f.message)

end Program

end Marginalia

open Marginalia Program in
def main (arguments : List String) : IO UInt32 := do
  let here ← IO.currentDir
  let entries ← (← here.readDir).toList.mapM fun e => do
    return (e.fileName.toList, ← readEntry e)
  let base := Path.ofText here.toString.toList
  let tree := FileTree.insert (.directory []) base.names (.directory entries)
  let invocation := Invocation.ofArguments (arguments.map String.toList)
  let (ending, session) :=
    invocation.run (surroundings ⟨tree, base⟩ (← environment)) (.start ⟨tree, base⟩)
  for (names, content) in FileTree.changed tree session.files.tree do
    let path := Path.toText ⟨true, names⟩
    let above := Path.toText ⟨true, names.dropLast⟩
    IO.FS.createDirAll (String.ofList above)
    IO.FS.writeBinFile (String.ofList path) ⟨content.toArray⟩
  printEnding session.log ending
  return UInt32.ofNat ending.exitCode
