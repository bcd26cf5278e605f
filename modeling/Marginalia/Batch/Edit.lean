import Marginalia.Batch.Basic

/-!
Edits by hand: a new level or new tags for the one record with a given id.
-/

namespace Marginalia

structure Edit where
  level : Option Level
  tags : Option (List Text)
  deriving DecidableEq, Repr

/-- The record after the edit. Empty tags are dropped. -/
def Edit.apply (e : Edit) (r : Record) : Record :=
  { r with
    level := e.level.getD r.level
    tags := (e.tags.map keepTags).getD r.tags }

namespace FileRecords

/-- The records with the first one of that id edited, and that one. -/
def editRecords (id : Int) (e : Edit) : List Record → Option (List Record × Record)
  | [] => none
  | r :: rs =>
    if r.id = id then some (e.apply r :: rs, e.apply r)
    else (editRecords id e rs).map fun (rs, edited) => (r :: rs, edited)

/-- The same through all files, in their order. -/
def editFiles (id : Int) (e : Edit) : List FileRecords → Option (List FileRecords × Record)
  | [] => none
  | (path, rs) :: fs =>
    match editRecords id e rs with
    | some (rs, edited) => some ((path, rs) :: fs, edited)
    | none => (editFiles id e fs).map fun (fs, edited) => ((path, rs) :: fs, edited)

theorem map_fst_editFiles {id : Int} {e : Edit} {fs gs : List FileRecords} {edited : Record}
    (h : editFiles id e fs = some (gs, edited)) : gs.map Prod.fst = fs.map Prod.fst := by
  induction fs generalizing gs with
  | nil => simp [editFiles] at h
  | cons f fs ih =>
    obtain ⟨path, rs⟩ := f
    simp only [editFiles] at h
    split at h
    · cases h; rfl
    · obtain ⟨⟨gs', edited'⟩, hg, he⟩ := Option.map_eq_some_iff.1 h
      cases he
      simp [ih hg]

end FileRecords

/-- The batch with the first record of that id edited, and the edited record. -/
def Batch.edit? (b : Batch) (id : Int) (e : Edit) : Option (Batch × Record) :=
  match h : FileRecords.editFiles id e b.files with
  | some (fs, edited) => some (⟨fs, by rw [FileRecords.map_fst_editFiles h]; exact b.distinct⟩, edited)
  | none => none

end Marginalia
