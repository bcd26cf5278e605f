import Marginalia.Proofs.Sorting
import Marginalia.Proofs.StoredForm

/-!
Batches as tables: what is found under a path after an entry has been put, what renumbering leaves
alone, and what holds of all records.
-/

namespace Marginalia

/-! ## Entries -/

namespace FileRecords

variable {path p : Text} {records : List Record} {fs : List FileRecords} {P : Record → Prop}

theorem find?_put_self : (put path records fs).find? (·.1 == path) = some (path, records) := by
  induction fs with
  | nil => simp [put]
  | cons f fs ih =>
      unfold put
      split
      · simp
      · rename_i hf
        rw [List.find?_cons_of_neg (by simpa using hf), ih]

theorem find?_put_of_ne (h : p ≠ path) :
    (put path records fs).find? (·.1 == p) = fs.find? (·.1 == p) := by
  induction fs with
  | nil => exact List.find?_cons_of_neg (by simpa using h.symm)
  | cons f fs ih =>
      unfold put
      split
      · rename_i hf
        rw [List.find?_cons_of_neg (by simpa using h.symm),
          List.find?_cons_of_neg (by simpa [hf] using h.symm)]
      · rw [List.find?_cons, List.find?_cons, ih]

theorem map_fst_put_of_mem (h : path ∈ fs.map Prod.fst) :
    (put path records fs).map Prod.fst = fs.map Prod.fst := by
  induction fs with
  | nil => cases h
  | cons f fs ih =>
      unfold put
      split
      · rename_i hf
        rw [List.map_cons, List.map_cons, hf]
      · rename_i hf
        have hrest : path ∈ fs.map Prod.fst := (List.mem_cons.mp h).resolve_left (Ne.symm hf)
        rw [List.map_cons, List.map_cons, ih hrest]

theorem forall_put (hfs : ∀ f ∈ fs, ∀ r ∈ f.2, P r) (hrecords : ∀ r ∈ records, P r) :
    ∀ f ∈ put path records fs, ∀ r ∈ f.2, P r := by
  induction fs with
  | nil => exact List.forall_mem_singleton.mpr hrecords
  | cons f fs ih =>
      obtain ⟨hf, hrest⟩ := List.forall_mem_cons.mp hfs
      unfold put
      split
      · exact List.forall_mem_cons.mpr ⟨hrecords, hrest⟩
      · exact List.forall_mem_cons.mpr ⟨hf, ih hrest⟩

/-! ## Numbers -/

theorem map_id_numberRecords (next : Nat) (rs : List Record) :
    (numberRecords next rs).map Record.id = (List.range' next rs.length).map Nat.cast := by
  induction rs generalizing next with
  | nil => rfl
  | cons r rs ih =>
      rw [numberRecords, List.map_cons, ih, List.length_cons, List.range'_succ, List.map_cons]
      rfl

/-- What does not look at ids does not see the numbers. -/
theorem map_numberRecords {β : Type} {f : Record → β} (hf : ∀ r i, f (r.withId i) = f r)
    (next : Nat) (rs : List Record) : (numberRecords next rs).map f = rs.map f := by
  induction rs generalizing next with
  | nil => rfl
  | cons r rs ih => rw [numberRecords, List.map_cons, List.map_cons, hf, ih]

theorem map_id_numberFiles (next : Nat) (fs : List FileRecords) :
    ((numberFiles next fs).flatMap Prod.snd).map Record.id =
      (List.range' next (fs.flatMap Prod.snd).length).map Nat.cast := by
  induction fs generalizing next with
  | nil => rfl
  | cons f fs ih =>
      rw [numberFiles, List.flatMap_cons, List.map_append, map_id_numberRecords, ih,
        ← List.map_append, List.flatMap_cons, List.length_append, List.range'_append_1]

theorem map_numberFiles {β : Type} {f : Record → β} (hf : ∀ r i, f (r.withId i) = f r)
    (next : Nat) (fs : List FileRecords) :
    (numberFiles next fs).map (fun e => (e.1, e.2.map f)) = fs.map fun e => (e.1, e.2.map f) := by
  induction fs generalizing next with
  | nil => rfl
  | cons e fs ih =>
      rw [numberFiles, List.map_cons, List.map_cons, map_numberRecords hf, ih]

end FileRecords

namespace Batch

variable {path p : Text} {records : List Record} {b : Batch}

theorem get?_put_self : (b.put path records).get? path = some records :=
  congrArg (Option.map Prod.snd) FileRecords.find?_put_self

theorem get?_put_of_ne (h : p ≠ path) : (b.put path records).get? p = b.get? p :=
  congrArg (Option.map Prod.snd) (FileRecords.find?_put_of_ne h)

/-- A path that is there keeps its place, and a new one comes last. -/
theorem paths_put :
    (b.put path records).paths = if path ∈ b.paths then b.paths else b.paths ++ [path] := by
  split
  · rename_i h
    exact FileRecords.map_fst_put_of_mem h
  · rename_i h
    have hput : (b.put path records).files = b.files ++ [(path, records)] :=
      FileRecords.put_of_not_mem h
    rw [paths, hput, List.map_append]
    rfl

/-- What is found under a path and looked at through `f`. -/
theorem map_get? {β : Type} (f : Record → β) :
    (b.get? p).map (List.map f) =
      ((b.files.map fun e => (e.1, e.2.map f)).find? (·.1 == p)).map Prod.snd := by
  unfold get?
  rw [List.find?_map, Option.map_map, Option.map_map]
  rfl

theorem paths_numbered : b.numbered.paths = b.paths := FileRecords.map_fst_numberFiles 0 b.files

theorem map_get?_numbered {β : Type} {f : Record → β} (hf : ∀ r i, f (r.withId i) = f r) :
    (b.numbered.get? p).map (List.map f) = (b.get? p).map (List.map f) := by
  rw [map_get?, map_get?]
  exact congrArg (fun fs : List (Text × List β) => (fs.find? (·.1 == p)).map Prod.snd)
    (FileRecords.map_numberFiles hf 0 b.files)

theorem paths_mapFiles (f : Text → List Record → List Record) : (b.mapFiles f).paths = b.paths := by
  simp [paths, mapFiles]

theorem get?_mapFiles (f : Text → List Record → List Record) :
    (b.mapFiles f).get? p = (b.get? p).map (f p) := by
  unfold get? mapFiles
  rw [List.find?_map, Option.map_map, Option.map_map]
  change ((b.files.find? (·.1 == p)).map fun e => f e.1 e.2) = _
  cases h : b.files.find? (·.1 == p) with
  | none => rfl
  | some e =>
      have he : e.1 = p := by simpa using List.find?_some h
      simp [he]

theorem get?_eq_some_iff : b.get? path = some records ↔ (path, records) ∈ b.files := by
  constructor
  · intro h
    obtain ⟨f, hf, rfl⟩ := Option.map_eq_some_iff.mp h
    have hpath : f.1 = path := by simpa using List.find?_some hf
    rw [← hpath]
    exact List.mem_of_find?_eq_some hf
  · intro h
    rw [get?, Sequence.find?_fst_of_mem b.distinct h, Option.map_some]

/-- Entries with different paths are the files of their batch. -/
theorem files_ofList {fs : List FileRecords} (h : (fs.map Prod.fst).Nodup) :
    (ofList fs).files = fs := by
  rw [ofList, files_foldl_put]
  · rfl
  · exact h

/-! ## Ids -/

/-- The ids of all records, file by file. -/
def ids (b : Batch) : List Int := b.records.map Record.id

/-- The ids are counted up from zero, in the order of the records. -/
def Counted (b : Batch) : Prop := b.ids = (List.range b.records.length).map Nat.cast

theorem length_records_numbered : b.numbered.records.length = b.records.length := by
  have h : b.numbered.ids.length = _ :=
    congrArg List.length (FileRecords.map_id_numberFiles 0 b.files)
  rw [ids, List.length_map, List.length_map, List.length_range'] at h
  exact h

theorem counted_numbered : b.numbered.Counted := by
  rw [Counted, length_records_numbered, List.range_eq_range']
  exact FileRecords.map_id_numberFiles 0 b.files

theorem ids_mapFiles {f : Text → List Record → List Record}
    (hf : ∀ path rs, (f path rs).map Record.id = rs.map Record.id) : (b.mapFiles f).ids = b.ids := by
  unfold ids records mapFiles
  rw [List.map_flatMap, List.map_flatMap, List.flatMap_map]
  exact congrArg (List.flatMap · b.files) (funext fun e => hf e.1 e.2)

/-- Whether ids are counted depends on them alone. -/
theorem Counted.of_ids {c : Batch} (h : b.Counted) (hids : c.ids = b.ids) : c.Counted := by
  have hlength : c.records.length = b.records.length := by
    simpa [ids] using congrArg List.length hids
  rw [Counted, hids, hlength]
  exact h

/-! ## All records -/

variable {P : Record → Prop}

/-- Every record of the batch satisfies `P`. -/
def All (P : Record → Prop) (b : Batch) : Prop := ∀ f ∈ b.files, ∀ r ∈ f.2, P r

theorem All.put (h : b.All P) (hrecords : ∀ r ∈ records, P r) : (b.put path records).All P :=
  FileRecords.forall_put h hrecords

theorem all_ofList {fs : List FileRecords} (h : ∀ f ∈ fs, ∀ r ∈ f.2, P r) :
    (ofList fs).All P := by
  have hfold : ∀ b : Batch, b.All P → (fs.foldl (fun b f => b.put f.1 f.2) b).All P := by
    induction fs with
    | nil => exact fun b hb => hb
    | cons f fs ih =>
        obtain ⟨hf, hrest⟩ := List.forall_mem_cons.mp h
        exact fun b hb => ih hrest (b.put f.1 f.2) (hb.put hf)
  apply hfold
  intro f hf
  cases hf

theorem All.get? (h : b.All P) (path : Text) : ∀ r ∈ (b.get? path).getD [], P r := by
  unfold Batch.get?
  cases hfind : b.files.find? (·.1 == path) with
  | none =>
      intro r hr
      cases hr
  | some f => exact h f (List.mem_of_find?_eq_some hfind)

theorem All.mapFiles (h : b.All P) {f : Text → List Record → List Record}
    (hf : ∀ path rs, (∀ r ∈ rs, P r) → ∀ r ∈ f path rs, P r) : (b.mapFiles f).All P := by
  intro e he
  obtain ⟨own, hown, rfl⟩ := List.mem_map.mp he
  exact hf own.1 own.2 (h own hown)

theorem All.numbered (h : b.All P) (hP : ∀ r i, P r → P (r.withId i)) : b.numbered.All P := by
  have hrecords : ∀ (next : Nat) (rs : List Record), (∀ r ∈ rs, P r) →
      ∀ r ∈ FileRecords.numberRecords next rs, P r := by
    intro next rs hrs
    induction rs generalizing next with
    | nil => exact hrs
    | cons r rs ih =>
        obtain ⟨hr, hrest⟩ := List.forall_mem_cons.mp hrs
        exact List.forall_mem_cons.mpr ⟨hP r next hr, ih (next + 1) hrest⟩
  have hfiles : ∀ (next : Nat) (fs : List FileRecords), (∀ f ∈ fs, ∀ r ∈ f.2, P r) →
      ∀ f ∈ FileRecords.numberFiles next fs, ∀ r ∈ f.2, P r := by
    intro next fs hfs
    induction fs generalizing next with
    | nil => exact hfs
    | cons f fs ih =>
        obtain ⟨hf, hrest⟩ := List.forall_mem_cons.mp hfs
        exact List.forall_mem_cons.mpr ⟨hrecords next f.2 hf, ih (next + f.2.length) hrest⟩
  exact hfiles 0 b.files h

end Batch

end Marginalia
