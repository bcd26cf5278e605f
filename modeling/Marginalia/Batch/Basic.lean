import Marginalia.Record.Basic

/-!
Batches: the records of many files, each file under its path. The order of the files matters, and
no path occurs twice.
-/

namespace Marginalia

/-- The records of one file. -/
abbrev FileRecords := Text × List Record

namespace FileRecords

/-- The files with one more entry: in the place of an entry with that path, or else at the end. -/
def put (path : Text) (records : List Record) : List FileRecords → List FileRecords
  | [] => [(path, records)]
  | f :: fs => if f.1 = path then (path, records) :: fs else f :: put path records fs

/-- The records with ids counted up from `next`. -/
def numberRecords (next : Nat) : List Record → List Record
  | [] => []
  | r :: rs => r.withId next :: numberRecords (next + 1) rs

/-- The ids are counted through all files. -/
def numberFiles (next : Nat) : List FileRecords → List FileRecords
  | [] => []
  | (path, rs) :: fs => (path, numberRecords next rs) :: numberFiles (next + rs.length) fs

theorem mem_map_fst_put {path p : Text} {records : List Record} {fs : List FileRecords} :
    p ∈ (put path records fs).map Prod.fst ↔ p = path ∨ p ∈ fs.map Prod.fst := by
  induction fs with
  | nil => simp [put]
  | cons f fs ih =>
    simp only [put]
    split
    · rename_i h; subst h; simp
    · simp only [List.map_cons, List.mem_cons, ih]
      exact or_left_comm

theorem nodup_put {path : Text} {records : List Record} {fs : List FileRecords}
    (h : (fs.map Prod.fst).Nodup) : ((put path records fs).map Prod.fst).Nodup := by
  induction fs with
  | nil => simp [put]
  | cons f fs ih =>
    simp only [put]
    split
    · rename_i hf; subst hf; simpa using h
    · rename_i hf
      simp only [List.map_cons, List.nodup_cons] at h ⊢
      refine ⟨fun hm => ?_, ih h.2⟩
      rcases mem_map_fst_put.1 hm with he | hm
      · exact hf he
      · exact h.1 hm

theorem map_fst_numberFiles (next : Nat) (fs : List FileRecords) :
    (numberFiles next fs).map Prod.fst = fs.map Prod.fst := by
  induction fs generalizing next with
  | nil => rfl
  | cons f fs ih => simp [numberFiles, ih]

end FileRecords

structure Batch where
  files : List FileRecords
  distinct : (files.map Prod.fst).Nodup
  deriving DecidableEq

namespace Batch

def empty : Batch := ⟨[], .nil⟩

instance : Inhabited Batch := ⟨empty⟩

def size (b : Batch) : Nat := b.files.length

def paths (b : Batch) : List Text := b.files.map Prod.fst

/-- All records, file by file. -/
def records (b : Batch) : List Record := b.files.flatMap Prod.snd

def get? (b : Batch) (path : Text) : Option (List Record) :=
  (b.files.find? (·.1 == path)).map Prod.snd

def put (b : Batch) (path : Text) (records : List Record) : Batch :=
  ⟨FileRecords.put path records b.files, FileRecords.nodup_put b.distinct⟩

/-- The batch of some entries. Of two entries with one path the later one counts, in the place of
the earlier. -/
def ofList (fs : List FileRecords) : Batch := fs.foldl (fun b f => b.put f.1 f.2) empty

/-- The records of every file changed, with the path at hand. -/
def mapFiles (b : Batch) (f : Text → List Record → List Record) : Batch :=
  ⟨b.files.map fun e => (e.1, f e.1 e.2), by
    have : (b.files.map fun e => (e.1, f e.1 e.2)).map Prod.fst = b.files.map Prod.fst := by
      simp [Function.comp_def]
    rw [this]; exact b.distinct⟩

/-- All records with new ids: they are counted up from zero, in the order of the files. -/
def numbered (b : Batch) : Batch :=
  ⟨FileRecords.numberFiles 0 b.files, by
    rw [FileRecords.map_fst_numberFiles]; exact b.distinct⟩

end Batch

end Marginalia
