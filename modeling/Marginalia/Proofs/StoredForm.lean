import Marginalia.Batch.Stored
import Marginalia.Proofs.JsonText
import Marginalia.Proofs.Utf8

/-!
The stored form of records and batches: a batch whose records meet what is asked of a record is read
back from its texts, in either layout, as it was.
-/

namespace Marginalia

/-! ## Validated values -/

namespace Validated

theorem itemsFrom_map {α : Type} {read : Json → Validated α} {write : α → Json} {f : α → α}
    {xs : List α} (h : ∀ x ∈ xs, read (write x) = .valid (f x)) (start : Nat) :
    itemsFrom read start (xs.map write) = .valid (xs.map f) := by
  induction xs generalizing start with
  | nil => rfl
  | cons x xs ih =>
      have hx := h x List.mem_cons_self
      have hxs := ih (fun y hy => h y (List.mem_cons_of_mem x hy)) (start + 1)
      rw [List.map_cons, itemsFrom, hx, hxs]
      rfl

theorem items_map {α : Type} {read : Json → Validated α} {write : α → Json} {f : α → α}
    {xs : List α} (h : ∀ x ∈ xs, read (write x) = .valid (f x)) :
    items read (xs.map write) = .valid (xs.map f) :=
  itemsFrom_map h 0

end Validated

namespace Json

/-- The fields of an object; other values have none. -/
def fields : Json → List (Text × Json)
  | object fs => fs
  | _ => []

theorem fits_array {d : Nat} {vs : List Json} (h : ∀ v ∈ vs, v.Fits d) :
    (array vs).Fits (d + 1) := by
  cases vs with
  | nil => exact trivial
  | cons v vs => exact h

theorem fits_object {d : Nat} {fs : List (Text × Json)} (h : ∀ f ∈ fs, f.2.Fits d) :
    (object fs).Fits (d + 1) := by
  cases fs with
  | nil => exact trivial
  | cons f fs => exact h

end Json

/-! ## Records -/

namespace Record

/-- What is asked of a record: trimmed content, tags that say something, and rows in order. -/
structure WellFormed (r : Record) : Prop where
  trimmed : r.content.trim = r.content
  content_ne_nil : r.content ≠ []
  tags_ne_nil : ∀ tag ∈ r.tags, tag ≠ []
  rows_nonneg : 0 ≤ r.rows.1
  rows_le : r.rows.1 ≤ r.rows.2

/-- What is asked of a record apart from its tags. -/
structure Storable (r : Record) : Prop where
  trimmed : r.content.trim = r.content
  content_ne_nil : r.content ≠ []
  rows_nonneg : 0 ≤ r.rows.1
  rows_le : r.rows.1 ≤ r.rows.2

/-- The record without the tags that say nothing. -/
def tidied (r : Record) : Record := r.withTags (keepTags r.tags)

variable {r : Record}

theorem WellFormed.storable (h : r.WellFormed) : r.Storable :=
  ⟨h.trimmed, h.content_ne_nil, h.rows_nonneg, h.rows_le⟩

theorem Storable.wellFormed_tidied (h : r.Storable) : r.tidied.WellFormed := by
  refine ⟨h.trimmed, h.content_ne_nil, ?_, h.rows_nonneg, h.rows_le⟩
  intro tag htag hnil
  subst hnil
  cases (List.mem_filter.mp htag).2

theorem WellFormed.tidied_eq (h : r.WellFormed) : r.tidied = r := by
  have hkeep : keepTags r.tags = r.tags := by
    refine List.filter_eq_self.mpr fun tag htag => ?_
    rw [List.isEmpty_eq_false_iff.mpr (h.tags_ne_nil tag htag)]
    rfl
  rw [tidied, hkeep]
  rfl

/-- Only the content and the rows count. -/
theorem Storable.congr {r' : Record} (h : r.Storable) (hcontent : r'.content = r.content)
    (hrows : r'.rows = r.rows) : r'.Storable := by
  obtain ⟨htrim, hne, hnonneg, hle⟩ := h
  constructor
  · rw [hcontent, htrim]
  · rw [hcontent]
    exact hne
  · rw [hrows]
    exact hnonneg
  · rw [hrows]
    exact hle

theorem WellFormed.withId (h : r.WellFormed) (id : Int) : (r.withId id).WellFormed :=
  ⟨h.trimmed, h.content_ne_nil, h.tags_ne_nil, h.rows_nonneg, h.rows_le⟩

theorem WellFormed.withCommitDate (h : r.WellFormed) (date : Text) :
    (r.withCommitDate date).WellFormed :=
  ⟨h.trimmed, h.content_ne_nil, h.tags_ne_nil, h.rows_nonneg, h.rows_le⟩

theorem WellFormed.withTags_nil (h : r.WellFormed) : (r.withTags []).WellFormed :=
  ⟨h.trimmed, h.content_ne_nil, fun _ => nofun, h.rows_nonneg, h.rows_le⟩

theorem readContent_string (h : r.Storable) : readContent (.string r.content) = .valid r.content := by
  have hne : r.content.isEmpty = false := List.isEmpty_eq_false_iff.mpr h.content_ne_nil
  change (if r.content.trim.isEmpty then _ else Validated.valid r.content.trim) = _
  rw [h.trimmed, hne]
  rfl

theorem readLevel_name (l : Level) : readLevel (.string l.name) = .valid l := by
  cases l <;> rfl

theorem readTags_array (tags : List Text) :
    readTags (.array (tags.map .string)) = .valid (keepTags tags) := by
  have hkeep : (tags.map Json.string).filter (fun v => !v.isFalsy) =
      (keepTags tags).map .string := List.filter_map
  have hread : ∀ tag ∈ keepTags tags, Json.asString (.string tag) = .valid ((fun t => t) tag) :=
    fun _ _ => rfl
  change Validated.items Json.asString _ = _
  rw [hkeep, Validated.items_map hread, List.map_id']

theorem readFields_toJson (h : r.Storable) : readFields r.toJson.fields = .valid r.tidied := by
  have hcontent : Json.fieldAs r.toJson.fields ["content"] (.fault .missing) readContent =
      .valid r.content := by
    change (readContent (.string r.content)).within _ = _
    rw [readContent_string h]
    rfl
  have hlevel : Json.fieldAs r.toJson.fields ["level"] (.valid .inline) readLevel =
      .valid r.level := by
    change (readLevel (.string r.level.name)).within _ = _
    rw [readLevel_name]
    rfl
  have htags : Json.fieldAs r.toJson.fields ["type"] (.valid []) readTags =
      .valid (keepTags r.tags) := by
    change (readTags (.array (r.tags.map .string))).within _ = _
    rw [readTags_array]
    rfl
  simp only [readFields, hcontent, hlevel, htags]
  rfl

theorem checkRows_eq (h : r.Storable) : checkRows r = .valid r := by
  have hfirst := h.rows_nonneg
  have hlast := h.rows_le
  have hrows : ¬ (r.rows.1 < 0 ∨ r.rows.2 < r.rows.1) := by omega
  simp only [checkRows, Bool.or_eq_true, decide_eq_true_eq, hrows, if_false]

/-- A record is read back from its stored form, but for empty tags. -/
theorem ofJson_toJson (h : r.Storable) : ofJson r.toJson = .valid r.tidied := by
  change (readFields r.toJson.fields).andThen checkRows = _
  rw [readFields_toJson h]
  exact checkRows_eq h.wellFormed_tidied.storable

theorem listOfJson_listToJson_tidied {rs : List Record} (h : ∀ r ∈ rs, r.Storable) :
    listOfJson (listToJson rs) = .valid (rs.map tidied) :=
  Validated.items_map fun r hr => ofJson_toJson (h r hr)

theorem map_tidied_eq {rs : List Record} (h : ∀ r ∈ rs, r.WellFormed) : rs.map tidied = rs := by
  calc rs.map tidied = rs.map fun r => r := List.map_congr_left fun r hr => (h r hr).tidied_eq
    _ = rs := List.map_id' rs

theorem listOfJson_listToJson {rs : List Record} (h : ∀ r ∈ rs, r.WellFormed) :
    listOfJson (listToJson rs) = .valid rs := by
  rw [listOfJson_listToJson_tidied fun r hr => (h r hr).storable, map_tidied_eq h]

theorem fits_toJson (r : Record) (d : Nat) : r.toJson.Fits (d + 2) := by
  have hint : ∀ n d, (Json.int n).Fits d := fun n d => by cases d <;> exact trivial
  have hstring : ∀ t d, (Json.string t).Fits d := fun t d => by cases d <;> exact trivial
  have htags : (Json.array (r.tags.map .string)).Fits (d + 1) := by
    refine Json.fits_array fun v hv => ?_
    obtain ⟨tag, -, rfl⟩ := List.mem_map.mp hv
    exact hstring tag d
  have hpair : ∀ p, (pairJson p).Fits (d + 1) := fun p => by
    refine Json.fits_array fun v hv => ?_
    simp only [List.mem_cons, List.not_mem_nil, or_false] at hv
    rcases hv with rfl | rfl
    · exact hint p.1 d
    · exact hint p.2 d
  refine Json.fits_object fun f hf => ?_
  simp only [List.mem_cons, List.not_mem_nil, or_false] at hf
  rcases hf with rfl | rfl | rfl | rfl | rfl | rfl | rfl | rfl | rfl | rfl
  · exact hint _ _
  · exact hstring _ _
  · exact hstring _ _
  · exact hstring _ _
  · exact hstring _ _
  · exact hstring _ _
  · exact htags
  · exact hpair _
  · exact hpair _
  · exact hstring _ _

theorem fits_listToJson (rs : List Record) (d : Nat) : (listToJson rs).Fits (d + 3) := by
  refine Json.fits_array fun v hv => ?_
  obtain ⟨r, -, rfl⟩ := List.mem_map.mp hv
  exact r.fits_toJson d

end Record

/-! ## Batches -/

theorem FileRecords.put_of_not_mem {path : Text} {records : List Record} {fs : List FileRecords}
    (h : path ∉ fs.map Prod.fst) : put path records fs = fs ++ [(path, records)] := by
  induction fs with
  | nil => rfl
  | cons f fs ih =>
      simp only [List.map_cons, List.mem_cons, not_or] at h
      rw [put, if_neg (Ne.symm h.1), ih h.2, List.cons_append]

namespace Batch

theorem ext_files {b c : Batch} (h : b.files = c.files) : b = c := by
  cases b
  cases c
  congr

/-- Entries with new paths are put behind those that are there. -/
theorem files_foldl_put (b : Batch) {fs : List FileRecords}
    (h : ((b.files ++ fs).map Prod.fst).Nodup) :
    (fs.foldl (fun b f => b.put f.1 f.2) b).files = b.files ++ fs := by
  induction fs generalizing b with
  | nil => exact (List.append_nil b.files).symm
  | cons f fs ih =>
      have hnew : f.1 ∉ b.files.map Prod.fst := by
        rw [List.map_append, List.nodup_append] at h
        intro hm
        exact h.2.2 f.1 hm f.1 (by rw [List.map_cons]; exact List.mem_cons_self) rfl
      have hput : (b.put f.1 f.2).files = b.files ++ [f] := FileRecords.put_of_not_mem hnew
      rw [List.foldl_cons, ih, hput, List.append_assoc, List.singleton_append]
      rw [hput, List.append_assoc, List.singleton_append]
      exact h

theorem ofList_files (b : Batch) : ofList b.files = b := by
  refine ext_files ?_
  rw [ofList, files_foldl_put]
  · rfl
  · exact b.distinct

theorem readFiles_map {fs : List FileRecords} (h : ∀ f ∈ fs, ∀ r ∈ f.2, r.Storable) :
    readFiles (fs.map fun (path, rs) => (path, Record.listToJson rs)) =
      .valid (fs.map fun f => (f.1, f.2.map Record.tidied)) := by
  induction fs with
  | nil => rfl
  | cons f fs ih =>
      have hf := Record.listOfJson_listToJson_tidied (h f List.mem_cons_self)
      have hfs := ih fun g hg => h g (List.mem_cons_of_mem f hg)
      rw [List.map_cons, readFiles, hf, hfs]
      rfl

/-- The records of the batch meet what is asked of a record. -/
def WellFormed (b : Batch) : Prop := ∀ f ∈ b.files, ∀ r ∈ f.2, r.WellFormed

/-- The same apart from the tags. -/
def Storable (b : Batch) : Prop := ∀ f ∈ b.files, ∀ r ∈ f.2, r.Storable

/-- The batch without the tags that say nothing. -/
def tidied (b : Batch) : Batch := b.mapFiles fun _ rs => rs.map Record.tidied

variable {b : Batch}

theorem WellFormed.storable (h : b.WellFormed) : b.Storable :=
  fun f hf r hr => (h f hf r hr).storable

theorem Storable.wellFormed_tidied (h : b.Storable) : b.tidied.WellFormed := by
  intro f hf r hr
  obtain ⟨own, hown, rfl⟩ := List.mem_map.mp hf
  obtain ⟨r', hr', rfl⟩ := List.mem_map.mp hr
  exact (h own hown r' hr').wellFormed_tidied

theorem WellFormed.tidied_eq (h : b.WellFormed) : b.tidied = b := by
  apply ext_files
  calc b.tidied.files = b.files.map id :=
        List.map_congr_left fun f hf => congrArg (f.1, ·) (Record.map_tidied_eq (h f hf))
    _ = b.files := List.map_id b.files

theorem ofJson_toJson_tidied (h : b.Storable) : ofJson b.toJson = .valid b.tidied := by
  rw [toJson, ofJson, readFiles_map h]
  exact congrArg Validated.valid b.tidied.ofList_files

theorem ofJson_toJson (h : b.WellFormed) : ofJson b.toJson = .valid b := by
  rw [ofJson_toJson_tidied h.storable, h.tidied_eq]

theorem fits_toJson (b : Batch) : b.toJson.Fits Json.maxDepth := by
  refine Json.fits_object fun f hf => ?_
  obtain ⟨⟨path, rs⟩, -, rfl⟩ := List.mem_map.mp hf
  exact Record.fits_listToJson rs 196

end Batch

/-! ## Bytes -/

variable {α : Type} {read : Json → Validated α} {v : Json}

theorem readJson_indented (h : v.Fits Json.maxDepth) :
    Bytes.readJson read v.indented.encode = read v := by
  rw [Bytes.readJson, Bytes.decode?_encode, Option.bind_some, Json.parse?_indented h]

theorem readJson_compact (h : v.Fits Json.maxDepth) :
    Bytes.readJson read v.compact.encode = read v := by
  rw [Bytes.readJson, Bytes.decode?_encode, Option.bind_some, Json.parse?_compact h]

/-- A batch is read back from the text of the store, but for empty tags. -/
theorem Batch.ofBytes_dump_tidied {b : Batch} (h : b.Storable) :
    ofBytes b.dump.encode = .valid b.tidied := by
  rw [ofBytes, dump, readJson_indented b.fits_toJson, ofJson_toJson_tidied h]

theorem Batch.ofBytes_dump {b : Batch} (h : b.WellFormed) : ofBytes b.dump.encode = .valid b := by
  rw [ofBytes_dump_tidied h.storable, h.tidied_eq]

end Marginalia
