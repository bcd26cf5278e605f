import Marginalia.Blame.Enrichment
import Marginalia.Classification.Classifier
import Marginalia.Extraction.Files

/-!
Sessions: what the work on a workspace reads and changes. A piece of work either ends with a value
or fails, and in both cases leaves a session behind.
-/

namespace Marginalia

structure Session where
  files : Files
  memory : Batch
  saves : Nat
  log : Log
  questions : List Question
  lookups : List (Text × Int)

/-- A session in which nothing has happened. -/
def Session.start (files : Files) : Session := ⟨files, .empty, 0, [], [], []⟩

/-- Work in a session. -/
abbrev Run := ExceptT Failure (StateM Session)

namespace Run

def note (entries : Log) : Run Unit := modify fun s => { s with log := s.log ++ entries }

/-- A computation that brings its own notes. -/
def noted {α : Type} (work : Log × Except Failure α) : Run α := do
  note work.1
  liftExcept work.2
where
  liftExcept : Except Failure α → Run α
    | .ok a => pure a
    | .error f => throw f

/-- The outcome as a value; the session goes on after a failure. -/
def attempt {α : Type} (work : Run α) : Run (Except Failure α) :=
  fun s => match work s with
    | (r, s) => (.ok r, s)

/-- Asks a classifier about one file. -/
def askFile (c : Classifier) (records : List Record) : Run (List Record) := do
  modify fun s => { s with questions := s.questions ++ [.file records] }
  noted (c.notes (.file records), c.file records)

/-- Asks a classifier about many files. -/
def askAll (c : Classifier) (batch : Batch) : Run Batch := do
  modify fun s => { s with questions := s.questions ++ [.all batch] }
  noted (c.notes (.all batch), c.all batch)

/-- Fills in the dates of a batch. -/
def enrich (dates : Dates) (batch : Batch) : Run Batch := do
  modify fun s => { s with lookups := s.lookups ++ batch.lookups }
  noted (batch.enrich dates)

end Run

end Marginalia
