import Marginalia.Classification.Remote
import Marginalia.CommandLine.Arguments
import Marginalia.Console.Markup
import Marginalia.Workspace.Watcher
import Marginalia.Workspace.Workflow

/-!
The commands, run in a session. Failures that a user can do something about are printed in red and
make the command end with the exit code one; others go through.
-/

namespace Marginalia

/-- What the commands reach outside of the session. -/
structure Surroundings where
  grammar : Grammar
  dates : Dates
  send : Request → Response
  environment : List (Text × Text)
  changes : List (List Change)
  interrupted : Bool
  scratch : Text → Path

/-- What a command prints, and with which code it ends. -/
structure Printed where
  exitCode : Nat
  console : List ConsoleItem
  output : Text

namespace Printed

def onConsole (items : List ConsoleItem) : Printed := ⟨0, items, []⟩

def refused (item : ConsoleItem) : Printed := ⟨1, [item], []⟩

end Printed

namespace Command

/-- Runs some work and prints what its value becomes. A failure of one of the given categories is
printed; any other is the failure of the command. -/
def printing {α : Type} (handled : List Category) (work : Run α) (print : α → Printed) :
    Run Printed := do
  match ← Run.attempt work with
  | .ok a => pure (print a)
  | .error f =>
    if handled.any f.isA then pure (.refused (Markup.error f.message)) else throw f

def settings (env : Surroundings) : Run Settings :=
  Run.noted ([], (Settings.ofVariables env.environment).orFail .invalid)

/-- The store below a root. -/
def storeOf (settings : Settings) (root : Path) : Store :=
  .file (root.join (Path.ofText settings.storePath))

/-- The workflow of a command below a root. -/
def workflow (env : Surroundings) (root : Path) (offline : Bool) : Run Workflow := do
  let settings ← settings env
  pure {
    grammar := env.grammar
    dates := env.dates
    settings
    store := storeOf settings root
    classifier :=
      if offline then none else some (Classifier.remote settings.classifierUrl env.send) }

/-! ## Extraction -/

/-- The source that the arguments give as text, at a path for scratch files. -/
def scratchSource (env : Surroundings) (code : Text) (language : Option Text) :
    Except Failure Source := do
  let language ← (Language.resolve language none).mapError .language
  .ok ⟨(env.scratch (Language.scratchSuffix language.name)).toText, language.name, code.normalize⟩

def extractScratch (env : Surroundings) (code : Text) (language : Option Text) :
    Run (List Record) := do
  let s ← Run.noted ([], scratchSource env code language)
  let settings ← settings env
  let records ← Run.noted (s.extract env.grammar settings)
  pure (records.map (·.withRelativePath (Path.ofText s.path).name))

/-- The file is read before the settings are, so that of two failures the one of the file counts. -/
def extractPath (env : Surroundings) (path : Path) (language : Option Text) :
    Run (List Record) := do
  let files := (← get).files
  let _ ← Run.noted ([], files.readSource path language)
  let settings ← settings env
  Run.noted (files.extractFile env.grammar settings path (some path.parent) language)

def runExtract (env : Surroundings) (path : Option Path) (code language : Option Text)
    (asJson : Bool) : Run Printed :=
  let print (records : List Record) : Printed :=
    if asJson then ⟨0, [], Record.dump records ++ ['\n']⟩
    else .onConsole (Record.shown (path.map Path.toText) records)
  let handled : List Category := [.unsupportedLanguage, .missingFile]
  match code, path with
  | some code, _ => printing handled (extractScratch env code language) print
  | none, some path => printing handled (extractPath env path language) print
  | none, none => pure (.refused (Markup.red "Provide a PATH or --code."))

/-! ## Classification -/

def runClassify (env : Surroundings) (root : Path) (offline : Bool) : Run Printed := do
  let w ← workflow env root offline
  printing [.classifierFailure, .storeFailure] (w.classifyWorkspace root) fun batch =>
    .onConsole [.line
      ("[green]Classified[/green] " ++ Text.ofNat batch.records.length ++ " comment(s) in " ++
        Text.ofNat batch.size ++ " file(s)")]

/-- How many records were kept and how many classified again. -/
def updated (results : List Reconciliation) : Printed :=
  let preserved := (results.flatMap (·.preserved)).length
  let reclassified := (results.flatMap (·.toReclassify)).length
  .onConsole [.line
    ("[green]Updated[/green] " ++ Text.ofNat preserved ++ " preserved, " ++
      Text.ofNat reclassified ++ " reclassified")]

def runUpdate (env : Surroundings) (path : Option Path) (root : Path) (offline : Bool) :
    Run Printed := do
  let w ← workflow env root offline
  let handled : List Category :=
    [.classifierFailure, .storeFailure, .unsupportedLanguage, .missingFile]
  match path with
  | some path => printing handled (w.updateFile path root) fun result => updated [result]
  | none => printing handled (w.updateWorkspace root) fun results => updated (results.map Prod.snd)

/-! ## The store -/

/-- The files that are shown: all, or the one at a path. -/
def shownFiles (files : Files) (batch : Batch) (file : Option Path) : List FileRecords :=
  match file with
  | none => batch.files
  | some file =>
    let key := (files.resolve file).toText
    [(key, (batch.get? key).getD [])]

def ofLevel (level : Option Level) (rs : List Record) : List Record :=
  match level with
  | some l => rs.filter (·.level = l)
  | none => rs

def runList (env : Surroundings) (root : Path) (file : Option Path) (level : Option Level) :
    Run Printed := do
  let store := storeOf (← settings env) root
  let files := (← get).files
  printing [.storeFailure] store.load fun batch =>
    .onConsole ((shownFiles files batch file).flatMap fun (path, rs) =>
      Record.shown (some path) (ofLevel level rs))

def runEdit (env : Surroundings) (id : Int) (root : Path) (level : Option Level)
    (tags : Option (List Text)) : Run Printed :=
  if level.isNone && tags.isNone then
    pure (.refused (Markup.red "Nothing to change: pass --level and/or --type."))
  else do
    let store := storeOf (← settings env) root
    printing [.storeFailure] (store.update id (level.map Level.name) tags) fun r =>
      .onConsole [.line
        ("[green]Updated[/green] comment " ++ Text.ofInt r.id ++ ": " ++ r.level.name ++
          ' ' :: Markup.escape (Record.commaJoined r.tags))]

/-! ## Watching -/

/-- Updates changed files one after the other, in the order of their paths. -/
def updateChanged (w : Workflow) (root : Path) (paths : List Path) : Run Unit :=
  (Sequence.sort Path.before paths).forM fun path => do
    let result ← w.updateFile path root
    Run.note [.info (path.toText ++ ": " ++ Workflow.countsOf result ++ " reclassified")]

/-- The same; tells whether it failed. -/
def updateFails (w : Workflow) (root : Path) (paths : List Path) : Run Bool := do
  match ← Run.attempt (updateChanged w root paths) with
  | .ok _ => pure false
  | .error _ => pure true

def runWatch (env : Surroundings) (root : Path) (offline : Bool) : Run Printed := do
  let w ← workflow env root offline
  let files := (← get).files
  let greeting : ConsoleItem := .line
    ("[green]Watching[/green] " ++ (files.resolve root).toText ++ " (Ctrl+C to stop)")
  let (log, watcher) := Watcher.start ⟨root, .off⟩
  Run.note log
  let watcher ←
    watcher.advance (fun entry => Run.note [entry]) (updateFails w root) env.changes
  if env.interrupted then pure (.onConsole [greeting, .line "Stopped."])
  else do
    Run.note watcher.stop.1
    pure (.onConsole [greeting])

/-! ## All commands -/

def run (env : Surroundings) : Command → Run Printed
  | extract path code language asJson => runExtract env path code language asJson
  | classify root offline => runClassify env root offline
  | update path root offline => runUpdate env path root offline
  | list root file level => runList env root file level
  | edit id root level tags => runEdit env id root level tags
  | watch root offline => runWatch env root offline

end Command

/-- How an invocation ends. No level of logging is set by a misuse. -/
structure Ending where
  exitCode : Nat
  console : List ConsoleItem
  output : Text
  logLevel : Option Severity
  failure : Option Failure
  requests : List Request

namespace Invocation

def logLevel (verbose : Bool) : Severity := if verbose then .debug else .info

/-- The requests behind some questions, at the address in the settings. -/
def requests (env : Surroundings) (questions : List Question) : List Request :=
  match Settings.ofVariables env.environment with
  | .valid settings => questions.map (Request.ofQuestion settings.classifierUrl)
  | .invalid _ => []

/-- Runs what the arguments ask for. -/
def run (env : Surroundings) (invocation : Invocation) (session : Session) : Ending × Session :=
  match invocation with
  | .misuse => (⟨2, [], [], none, none, []⟩, session)
  | .help => (⟨0, [], [], some .warning, none, []⟩, session)
  | .commandHelp verbose => (⟨0, [], [], some (logLevel verbose), none, []⟩, session)
  | .command verbose c =>
    let asked := session.questions.length
    let (printed, session) := c.run env session
    let sent := requests env (session.questions.drop asked)
    let level := some (logLevel verbose)
    match printed with
    | .ok p => (⟨p.exitCode, p.console, p.output, level, none, sent⟩, session)
    | .error f => (⟨1, [], [], level, some f, sent⟩, session)

end Invocation

end Marginalia
