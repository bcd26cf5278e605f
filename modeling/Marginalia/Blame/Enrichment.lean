import Marginalia.Batch.Basic
import Marginalia.Blame.Answer
import Marginalia.FileTree.Basic
import Marginalia.Log

/-!
Enrichment: records that have no commit date yet get the one of their first line.
-/

namespace Marginalia

/-- What comes of looking up the date of a line. -/
inductive DateLookup where
  | answered (date : Option Text)
  | failed (cause : Failure)
  | timedOut

/-- The date of each line of each file, the lines counted from one. -/
abbrev Dates := Text → Int → DateLookup

namespace DateLookup

/-- A lookup, from what comes of asking. -/
def ofExcept : Except Failure (Option Text) → DateLookup
  | .ok date => answered date
  | .error f => failed f

/-- The date that a record gets. A failure to look it up leaves it empty; any other failure stays
one. -/
def date : DateLookup → Except Failure Text
  | answered date => .ok (date.getD [])
  | timedOut => .ok []
  | failed cause => if cause.isA .commitLookupFailure then .ok [] else .error cause

/-- What is noted of a lookup that found nothing out. -/
def note? (path : Text) (line : Int) : DateLookup → Option LogEntry
  | answered _ => none
  | timedOut => some (.debug (text []))
  | failed cause =>
    if cause.isA .commitLookupFailure then some (.debug (text cause.message)) else none
where
  text (reason : Text) : Text :=
    "Commit date lookup failed for " ++ Failure.placeOf path line ++ ": " ++ reason

end DateLookup

/-- The dates that the version history gives of files seen from the directory `base`, by what comes
of running the command for each line. Where nothing has come of it in time it is left alone. -/
def Blame.dates (tree : FileTree) (base : Path) (history : Text → Int → Option Outcome) : Dates :=
  fun path line =>
    match history path line with
    | some outcome => .ofExcept (date (tree.resolve base (Path.ofText path)) line outcome)
    | none => .timedOut

/-- The line that the date of a record is that of. -/
def Record.firstLine (r : Record) : Int := r.rows.1 + 1

namespace Batch

/-- The lines that are looked up: those of the records without a date. -/
def lookups (b : Batch) : List (Text × Int) :=
  b.files.flatMap fun (path, rs) =>
    (rs.filter fun r => r.commitDate.isEmpty).map fun r => (path, r.firstLine)

/-- The record with the date of its first line, if it has none and there is one. -/
def dated (dates : Dates) (path : Text) (r : Record) : Record :=
  if r.commitDate.isEmpty then
    match (dates path r.firstLine).date with
    | .ok date => r.withCommitDate date
    | .error _ => r
  else r

def lookupNotes (dates : Dates) (b : Batch) : Log :=
  b.lookups.filterMap fun (path, line) => (dates path line).note? path line

/-- The first failure that is more than a failure to look up. -/
def lookupFailure? (dates : Dates) (b : Batch) : Option Failure :=
  b.lookups.findSome? fun (path, line) =>
    match (dates path line).date with
    | .ok _ => none
    | .error f => some f

/-- The batch with all dates filled in. -/
def enrich (dates : Dates) (b : Batch) : Log × Except Failure Batch :=
  (lookupNotes dates b,
    match lookupFailure? dates b with
    | some f => .error f
    | none => .ok (b.mapFiles fun path rs => rs.map (dated dates path)))

end Batch

end Marginalia
