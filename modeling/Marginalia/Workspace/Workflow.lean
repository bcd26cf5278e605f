import Marginalia.Batch.Reconciliation
import Marginalia.Workspace.Store

/-!
Workflows: extraction, reconciliation with the store, classification and storing, from end to end.
The store is written once, as the last step.
-/

namespace Marginalia

/-- What a workflow works with. Without a classifier nothing is classified. -/
structure Workflow where
  grammar : Grammar
  dates : Dates
  settings : Settings
  store : Store
  classifier : Option Classifier

namespace Workflow

variable (w : Workflow)

/-- The batch with dates, if the settings ask for them. -/
def enrich (batch : Batch) : Run Batch :=
  if w.settings.enrichCommitDates then Run.enrich w.dates batch else pure batch

/-- The extraction of all files below a root. -/
def extractTree (root : Path) : Run Batch := do
  let files := (← get).files
  let (log, batch) := files.extractTree w.grammar w.settings root
  Run.note log
  w.enrich batch

/-- Extracts and classifies everything and replaces what is stored. -/
def classifyWorkspace (root : Path) : Run Batch := do
  let batch ← w.extractTree root
  let batch ← match w.classifier with
    | some c => Batch.numbered <$> Run.askAll c batch
    | none => pure batch
  w.store.save batch
  pure batch

/-- The extraction of one file under its own path. -/
def extractFile (file root : Path) : Run (List Record) := do
  let files := (← get).files
  let records ← Run.noted (files.extractFile w.grammar w.settings file (some root) none)
  let batch ← w.enrich (Batch.ofList [(file.toText, records)])
  pure ((batch.get? file.toText).getD [])

/-- The records after classification. Nothing is asked about no records. -/
def classify (records : List Record) : Run (List Record) :=
  match w.classifier with
  | some c => if records.isEmpty then pure records else Run.askFile c records
  | none => pure records

def countsOf (r : Reconciliation) : Text :=
  Text.ofNat r.preserved.length ++ " preserved, " ++ Text.ofNat r.toReclassify.length

/-- Extracts one file again and classifies only what is new in it. -/
def updateFile (path root : Path) : Run Reconciliation := do
  let file := (← get).files.resolve path
  let current ← w.extractFile file root
  let stored ← w.store.load
  let result := Reconciliation.separate ((stored.get? file.toText).getD []) current
  Run.note [.info (file.name ++ ": " ++ countsOf result ++ " to reclassify")]
  let classified ← w.classify result.toReclassify
  w.store.save (stored.put file.toText (result.preserved ++ classified)).numbered
  pure ⟨result.preserved, classified⟩

/-- The files with something to classify. -/
def pending (results : List (Text × Reconciliation)) : Batch :=
  Batch.ofList ((results.filter fun r => !r.2.toReclassify.isEmpty).map
    fun r => (r.1, r.2.toReclassify))

/-- The answers about the files with something to classify, or these files as they are. -/
def classifyPending (pending : Batch) : Run Batch :=
  match w.classifier with
  | some c => if pending.files.isEmpty then pure pending else Run.askAll c pending
  | none => pure pending

/-- The results with the answers in; a file without an answer stays unclassified. -/
def settled (answers : Batch) (results : List (Text × Reconciliation)) :
    List (Text × Reconciliation) :=
  results.map fun (path, r) =>
    (path, { r with toReclassify := (answers.get? path).getD r.toReclassify })

/-- Extracts all files below a root again and classifies only what is new. Files that are gone are
no longer stored. -/
def updateWorkspace (root : Path) : Run (List (Text × Reconciliation)) := do
  let current ← w.extractTree root
  let stored ← w.store.load
  let results := Reconciliation.ofBatches stored current
  let answers ← w.classifyPending (pending results)
  let results := settled answers results
  w.store.save (Batch.ofList (results.map fun r => (r.1, r.2.merged))).numbered
  pure results

end Workflow

end Marginalia
