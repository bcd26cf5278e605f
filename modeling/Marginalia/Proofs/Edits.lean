import Marginalia.Proofs.Outcomes
import Marginalia.Proofs.Writes

/-!
Edits by hand. An edit changes the first record with the given id, in the file in which it stands,
and nothing else that is stored.
-/

namespace Marginalia

/-! ## The record that is edited -/

namespace FileRecords

variable {id : Int} {e : Edit} {edited r : Record} {rs rs' before behind : List Record}
  {fs fs' front back : List FileRecords} {key : Text}

theorem editRecords_eq_none_iff : editRecords id e rs = none ↔ ∀ r ∈ rs, r.id ≠ id := by
  induction rs with
  | nil => exact iff_of_true rfl (List.forall_mem_nil _)
  | cons r rs ih =>
      rw [List.forall_mem_cons, ← ih]
      by_cases hr : r.id = id
      · rw [editRecords, if_pos hr]
        exact iff_of_false nofun fun h => h.1 hr
      · rw [editRecords, if_neg hr, Option.map_eq_none_iff]
        exact (and_iff_right hr).symm

theorem editRecords_append (hbefore : ∀ x ∈ before, x.id ≠ id) (hr : r.id = id) :
    editRecords id e (before ++ r :: behind) =
      some (before ++ e.apply r :: behind, e.apply r) := by
  induction before with
  | nil => rw [List.nil_append, editRecords, if_pos hr]; rfl
  | cons x before ih =>
      obtain ⟨hx, hrest⟩ := List.forall_mem_cons.mp hbefore
      rw [List.cons_append, editRecords, if_neg hx, ih hrest]
      rfl

theorem editFiles_eq_none_iff :
    editFiles id e fs = none ↔ ∀ f ∈ fs, ∀ r ∈ f.2, r.id ≠ id := by
  induction fs with
  | nil => exact iff_of_true rfl (List.forall_mem_nil _)
  | cons f fs ih =>
      rw [List.forall_mem_cons, ← ih, ← editRecords_eq_none_iff (e := e), editFiles]
      cases editRecords id e f.2 with
      | some found =>
          refine iff_of_false ?_ ?_
          · intro h
            cases h
          · rintro ⟨h, -⟩
            cases h
      | none => exact Option.map_eq_none_iff.trans (and_iff_right rfl).symm

theorem editFiles_append (hfront : ∀ f ∈ front, ∀ x ∈ f.2, x.id ≠ id)
    (h : editRecords id e rs = some (rs', edited)) :
    editFiles id e (front ++ (key, rs) :: back) = some (front ++ (key, rs') :: back, edited) := by
  induction front with
  | nil =>
      rw [List.nil_append, editFiles, h]
      rfl
  | cons f front ih =>
      obtain ⟨hf, hrest⟩ := List.forall_mem_cons.mp hfront
      rw [List.cons_append, editFiles, editRecords_eq_none_iff.mpr hf, ih hrest]
      rfl

theorem exists_of_editRecords (h : editRecords id e rs = some (rs', edited)) :
    ∃ before r behind, rs = before ++ r :: behind ∧ r.id = id ∧ (∀ x ∈ before, x.id ≠ id) ∧
      edited = e.apply r := by
  induction rs generalizing rs' with
  | nil => cases h
  | cons r rs ih =>
      unfold editRecords at h
      split at h
      · rename_i hr
        cases h
        exact ⟨[], r, rs, rfl, hr, List.forall_mem_nil _, rfl⟩
      · rename_i hr
        obtain ⟨⟨rest, found⟩, hrest, hcons⟩ := Option.map_eq_some_iff.mp h
        cases hcons
        obtain ⟨before, own, behind, rfl, hid, hbefore, rfl⟩ := ih hrest
        exact ⟨r :: before, own, behind, rfl, hid, List.forall_mem_cons.mpr ⟨hr, hbefore⟩, rfl⟩

theorem exists_of_editFiles (h : editFiles id e fs = some (fs', edited)) :
    ∃ front key rs rs' back, fs = front ++ (key, rs) :: back ∧
      editRecords id e rs = some (rs', edited) ∧ ∀ f ∈ front, ∀ x ∈ f.2, x.id ≠ id := by
  induction fs generalizing fs' with
  | nil => cases h
  | cons f fs ih =>
      obtain ⟨path, own⟩ := f
      unfold editFiles at h
      cases hown : editRecords id e own with
      | some found =>
          simp only [hown] at h
          cases h
          exact ⟨[], path, own, found.1, fs, rfl, hown, List.forall_mem_nil _⟩
      | none =>
          simp only [hown] at h
          obtain ⟨⟨rest, found⟩, hrest, hcons⟩ := Option.map_eq_some_iff.mp h
          cases hcons
          obtain ⟨front, key, rs, rs', back, rfl, hrs, hfront⟩ := ih hrest
          exact ⟨(path, own) :: front, key, rs, rs', back, rfl, hrs,
            List.forall_mem_cons.mpr ⟨editRecords_eq_none_iff.mp hown, hfront⟩⟩

end FileRecords

namespace Batch

variable {b b' : Batch} {id : Int} {e : Edit} {key : Text} {r edited : Record}

/-- The first record with the id, and the file in which it stands. -/
def FirstWith (b : Batch) (id : Int) (key : Text) (r : Record) : Prop :=
  ∃ front before behind back, b.files = front ++ (key, before ++ r :: behind) :: back ∧
    r.id = id ∧ (∀ f ∈ front, ∀ x ∈ f.2, x.id ≠ id) ∧ ∀ x ∈ before, x.id ≠ id

/-- The record is another one, and all else in the batch is as it was. -/
structure EditedAt (b b' : Batch) (key : Text) (r edited : Record) : Prop where
  file : ∃ before behind, b.get? key = some (before ++ r :: behind) ∧
    b'.get? key = some (before ++ edited :: behind)
  others : ∀ path, path ≠ key → b'.get? path = b.get? path
  ids : b'.ids = b.ids

theorem get?_of_ne {front back : List FileRecords} {rs rs' : List Record} {path : Text}
    (h : b.files = front ++ (key, rs) :: back) (h' : b'.files = front ++ (key, rs') :: back)
    (hne : path ≠ key) : b'.get? path = b.get? path := by
  have hskip : ∀ rs : List Record, ((key, rs) :: back).find? (·.1 == path) =
      back.find? (·.1 == path) := fun rs => List.find?_cons_of_neg (by simpa using hne.symm)
  rw [get?, get?, h, h', List.find?_append, List.find?_append, hskip, hskip]

theorem exists_edit?_of_editFiles {fs : List FileRecords}
    (h : FileRecords.editFiles id e b.files = some (fs, edited)) :
    ∃ b', b.edit? id e = some (b', edited) ∧ b'.files = fs := by
  unfold Batch.edit?
  split
  · rename_i fs' edited' hfs
    cases hfs.symm.trans h
    exact ⟨_, rfl, rfl⟩
  · rename_i hnone
    cases hnone.symm.trans h

/-- The first record with the id, in the file at `key`, is another one, and all else is as it was,
place by place. -/
def EditsFirst (b b' : Batch) (id : Int) (key : Text) (r edited : Record) : Prop :=
  ∃ front before behind back, b.files = front ++ (key, before ++ r :: behind) :: back ∧
    b'.files = front ++ (key, before ++ edited :: behind) :: back ∧
    r.id = id ∧ (∀ f ∈ front, ∀ x ∈ f.2, x.id ≠ id) ∧ ∀ x ∈ before, x.id ≠ id

theorem FirstWith.exists_editsFirst (h : b.FirstWith id key r) (e : Edit) :
    ∃ b', b.edit? id e = some (b', e.apply r) ∧ b.EditsFirst b' id key r (e.apply r) := by
  obtain ⟨front, before, behind, back, hfiles, hid, hfront, hbefore⟩ := h
  have hedit : FileRecords.editFiles id e b.files =
      some (front ++ (key, before ++ e.apply r :: behind) :: back, e.apply r) := by
    rw [hfiles]
    exact FileRecords.editFiles_append hfront (FileRecords.editRecords_append hbefore hid)
  obtain ⟨b', hb', hfiles'⟩ := exists_edit?_of_editFiles hedit
  exact ⟨b', hb', front, before, behind, back, hfiles, hfiles', hid, hfront, hbefore⟩

theorem EditsFirst.editedAt (h : b.EditsFirst b' id key r edited) (hid : edited.id = r.id) :
    b.EditedAt b' key r edited := by
  obtain ⟨front, before, behind, back, hfiles, hfiles', -⟩ := h
  have hmem : ∀ rs, (key, rs) ∈ front ++ (key, rs) :: back := fun _ =>
    List.mem_append_right front List.mem_cons_self
  refine ⟨⟨before, behind, ?_, ?_⟩, fun path => get?_of_ne hfiles hfiles', ?_⟩
  · rw [get?_eq_some_iff, hfiles]
    exact hmem _
  · rw [get?_eq_some_iff, hfiles']
    exact hmem _
  · simp only [ids, records, hfiles, hfiles', List.flatMap_append, List.flatMap_cons,
      List.map_append, List.map_cons, hid]

theorem EditsFirst.paths_eq (h : b.EditsFirst b' id key r edited) : b'.paths = b.paths := by
  obtain ⟨front, before, behind, back, hfiles, hfiles', -⟩ := h
  simp only [paths, hfiles, hfiles', List.map_append, List.map_cons]

theorem EditsFirst.lengths_eq (h : b.EditsFirst b' id key r edited) :
    b'.files.map (fun f => f.2.length) = b.files.map fun f => f.2.length := by
  obtain ⟨front, before, behind, back, hfiles, hfiles', -⟩ := h
  simp only [hfiles, hfiles', List.map_append, List.map_cons, List.length_append, List.length_cons]

/-- The first record with the id is the one that is edited. -/
theorem FirstWith.exists_edit? (h : b.FirstWith id key r) (e : Edit) :
    ∃ b', b.edit? id e = some (b', e.apply r) ∧ b.EditedAt b' key r (e.apply r) := by
  obtain ⟨b', hb', hfirst⟩ := h.exists_editsFirst e
  exact ⟨b', hb', hfirst.editedAt rfl⟩

theorem FirstWith.editedAt (h : b.FirstWith id key r) (hedit : b.edit? id e = some (b', edited)) :
    edited = e.apply r ∧ b.EditedAt b' key r edited := by
  obtain ⟨own, hown, hedited⟩ := h.exists_edit? e
  cases hedit.symm.trans hown
  exact ⟨rfl, hedited⟩

/-- Whatever is edited is the first record with the id. -/
theorem exists_firstWith (h : b.edit? id e = some (b', edited)) : ∃ key r, b.FirstWith id key r := by
  unfold Batch.edit? at h
  split at h
  · rename_i fs found hfs
    obtain ⟨front, key, rs, rs', back, hfiles, hrs, hfront⟩ := FileRecords.exists_of_editFiles hfs
    obtain ⟨before, r, behind, rfl, hid, hbefore, -⟩ := FileRecords.exists_of_editRecords hrs
    exact ⟨key, r, front, before, behind, back, hfiles, hid, hfront, hbefore⟩
  · cases h

theorem edit?_eq_none_iff : b.edit? id e = none ↔ ∀ r ∈ b.records, r.id ≠ id := by
  have hfiles : b.edit? id e = none ↔ FileRecords.editFiles id e b.files = none := by
    unfold Batch.edit?
    split
    · rename_i hsome
      exact iff_of_false nofun fun hnone => nomatch hsome.symm.trans hnone
    · rename_i hnone
      exact iff_of_true rfl hnone
  rw [hfiles, FileRecords.editFiles_eq_none_iff, records, List.forall_mem_flatMap]

/-- Some record with the id is the first one. -/
theorem exists_firstWith_of_mem (h : ∃ r ∈ b.records, r.id = id) :
    ∃ key first, b.FirstWith id key first := by
  cases hedit : b.edit? id ⟨none, none⟩ with
  | some found => exact exists_firstWith hedit
  | none =>
      obtain ⟨r, hr, hid⟩ := h
      exact absurd hid (edit?_eq_none_iff.mp hedit r hr)

theorem editNamed_of_level (b : Batch) (id : Int) (level : Option Level)
    (tags : Option (List Text)) : b.editNamed id (level.map Level.name) tags =
      match b.edit? id ⟨level, tags⟩ with
      | some found => .ok found
      | none => .error (.recordMissing id) := by
  have hnamed : Edit.named (level.map Level.name) tags = .ok ⟨level, tags⟩ := by
    cases level with
    | none => rfl
    | some l => cases l <;> rfl
  rw [editNamed, hnamed]
  rfl

theorem exists_edit?_of_editNamed {level : Option Text} {tags : Option (List Text)}
    (h : b.editNamed id level tags = .ok (b', edited)) : ∃ e, b.edit? id e = some (b', edited) := by
  obtain ⟨e, -, h⟩ := Sequence.bind_eq_ok.mp h
  split at h
  · rename_i hfound
    cases h
    exact ⟨e, hfound⟩
  · cases h

theorem All.editedAt {P : Record → Prop} (h : b.All P) (hb' : b.EditedAt b' key r edited)
    (hP : P r → P edited) : b'.All P := by
  intro f hf x hx
  have hget : b'.get? f.1 = some f.2 := get?_eq_some_iff.mpr hf
  by_cases hkey : f.1 = key
  · obtain ⟨before, behind, hold, hnew⟩ := hb'.file
    rw [hkey, hnew] at hget
    rw [← Option.some.inj hget] at hx
    have hfile := h _ (get?_eq_some_iff.mp hold)
    simp only [List.forall_mem_append, List.forall_mem_cons] at hfile
    obtain ⟨hbefore, hr, hbehind⟩ := hfile
    rcases List.mem_append.mp hx with hx | hx
    · exact hbefore x hx
    · rcases List.mem_cons.mp hx with rfl | hx
      · exact hP hr
      · exact hbehind x hx
  · rw [hb'.others f.1 hkey] at hget
    exact h _ (get?_eq_some_iff.mp hget) x hx

end Batch

/-! ## Edits of a store -/

namespace Store

variable {store : Store} {id : Int} {level : Option Text} {tags : Option (List Text)} {s : Session}

theorem Keeps.edit {r : Record} (h : store.Keeps r) (e : Edit) : store.Keeps (e.apply r) := by
  cases store with
  | memory => trivial
  | file path =>
      refine ⟨h.trimmed, h.content_ne_nil, ?_, h.rows_nonneg, h.rows_le⟩
      intro tag htag
      change tag ∈ (e.tags.map keepTags).getD r.tags at htag
      cases htags : e.tags with
      | none =>
          rw [htags] at htag
          exact h.tags_ne_nil tag htag
      | some own =>
          rw [htags] at htag
          exact List.isEmpty_eq_false_iff.mp (by simpa using (List.mem_filter.mp htag).2)

theorem keeps_of_edit? {b b' : Batch} {e : Edit} {edited : Record} (hb : b.All store.Keeps)
    (h : b.edit? id e = some (b', edited)) : b'.All store.Keeps := by
  obtain ⟨key, r, hfirst⟩ := Batch.exists_firstWith h
  obtain ⟨rfl, hedited⟩ := hfirst.editedAt h
  exact hb.editedAt hedited fun hr => hr.edit e

theorem update_eq (store : Store) (id : Int) (level : Option Text) (tags : Option (List Text)) :
    store.update id level tags = (do
      let b ← store.load
      let found ← Run.noted ([], b.editNamed id level tags)
      store.replace found.1
      pure found.2) := by
  cases store <;> rfl

/-- An edit that the loaded batch does not allow writes nothing. -/
theorem reads_update_of_error {b : Batch} {f : Failure} (hload : (store.load s).1 = .ok b)
    (h : b.editNamed id level tags = .error f) :
    (store.update id level tags).Reads s (.error f) [] := by
  have hread : store.load.Reads s (.ok b) [] := hload ▸ reads_load store s
  apply hread.bind
  intro s' _
  apply Run.Reads.bind_error
  rw [h]
  exact Run.reads_noted [] (.error f) s'

/-- An edit of the loaded batch is what the store has afterwards, unless its file cannot be
written; then nothing is written. -/
theorem update_of_editNamed {b b' : Batch} {edited : Record} (hload : (store.load s).1 = .ok b)
    (h : b.editNamed id level tags = .ok (b', edited)) :
    (∃ s', store.update id level tags s = (.ok edited, s') ∧ (store.load s').1 = .ok b') ∨
      ∃ path e, store = .file path ∧ written s.files path b' = .error e ∧
        (store.update id level tags).Reads s (.error (.storeUnwritable path.toText e)) [] := by
  obtain ⟨e, hfound⟩ := Batch.exists_edit?_of_editNamed h
  have hkeeps := keeps_of_edit? (keeps_of_load hload) hfound
  have hread : store.load.Reads s (.ok b) [] := hload ▸ reads_load store s
  obtain ⟨s₁, hloaded, hs₁⟩ := hread
  have hnoted : (Run.noted ([], b.editNamed id level tags)).Reads s₁ (.ok (b', edited)) [] := by
    rw [h]
    exact Run.reads_noted [] (.ok (b', edited)) s₁
  obtain ⟨s₂, hedited, hs₂⟩ := hnoted
  have hs := hs₁.trans hs₂
  have hrun : store.update id level tags s = (store.replace b' >>= fun _ => pure edited) s₂ := by
    rw [update_eq, Run.bind_of_ok hloaded, Run.bind_of_ok hedited]
  cases store with
  | memory => exact .inl ⟨_, hrun, rfl⟩
  | file path =>
      rcases load_save_kept (canHold_of_keeps hkeeps) s₂ with
        ⟨s₃, hsave, hafter, -⟩ | ⟨file, f, hfile, hwritten, hsave⟩
      · rw [kept_of_keeps hkeeps] at hafter
        exact .inl ⟨s₃, hrun.trans (Run.bind_of_ok hsave), hafter⟩
      · rw [hs.files] at hwritten
        exact .inr ⟨file, f, hfile, hwritten, s₂, hrun.trans (Run.bind_of_error hsave), hs⟩

/-- How an edit of a store ends. -/
inductive Update (store : Store) (id : Int) (level : Option Text) (tags : Option (List Text))
    (s : Session) : Except Failure Record → Session → Prop where
  | failed {f : Failure} {s' : Session} :
      store.SameIn s s' → Update store id level tags s (.error f) s'
  | edited {e : Edit} {b b' : Batch} {r : Record} {s' : Session} :
      (store.load s).1 = .ok b → b.edit? id e = some (b', r) → (store.load s').1 = .ok b' →
      Update store id level tags s (.ok r) s'

theorem update_ends (store : Store) (id : Int) (level : Option Text) (tags : Option (List Text))
    (s : Session) : store.Update id level tags s (store.update id level tags s).1
      (store.update id level tags s).2 := by
  have hfailed : ∀ {f}, (store.update id level tags).Reads s (.error f) [] →
      store.Update id level tags s (store.update id level tags s).1
        (store.update id level tags s).2 := by
    rintro f ⟨s', hrun, hs'⟩
    rw [hrun]
    exact .failed (sameIn_of_extends store hs')
  cases hload : (store.load s).1 with
  | error f => exact hfailed (hload ▸ reads_load store s).bind_error
  | ok b =>
      cases hedit : b.editNamed id level tags with
      | error f => exact hfailed (reads_update_of_error hload hedit)
      | ok found =>
          obtain ⟨b', edited⟩ := found
          obtain ⟨e, hfound⟩ := Batch.exists_edit?_of_editNamed hedit
          rcases update_of_editNamed hload hedit with ⟨s', hrun, hafter⟩ | ⟨path, e', -, -, hfail⟩
          · rw [hrun]
            exact .edited hload hfound hafter
          · exact hfailed hfail

theorem update_ends_of_eq {s' : Session} {r : Except Failure Record}
    (hrun : store.update id level tags s = (r, s')) : store.Update id level tags s r s' := by
  have hend := store.update_ends id level tags s
  rw [hrun] at hend
  exact hend

theorem update_stores (store : Store) (id : Int) (level : Option Text)
    (tags : Option (List Text)) (s : Session) :
    (store.update id level tags).Stores store s
      fun b' => ∃ b, (store.load s).1 = .ok b ∧ b'.ids = b.ids := by
  rcases hrun : store.update id level tags s with ⟨r, s'⟩
  cases update_ends_of_eq hrun with
  | failed hsame => exact ⟨_, s', hrun, .inl ⟨_, rfl, hsame⟩⟩
  | edited hload hedit hload' =>
      obtain ⟨key, own, hfirst⟩ := Batch.exists_firstWith hedit
      exact ⟨_, s', hrun, .inr ⟨_, _, rfl, hload', _, hload, (hfirst.editedAt hedit).2.ids⟩⟩

/-- If no record has the id, an edit by hand fails and nothing is written. Else the first record with
the id, in the order of the files, takes the level and the tags that are given, without empty ones,
and every other record stays where and as it was. The record after the edit is the answer, and it is
what the store has, unless the file of the store cannot be written; then nothing is written. -/
theorem update_touches_first (b : Batch) (id : Int) (level : Option Level)
    (tags : Option (List Text)) :
    ((∀ r ∈ b.records, r.id ≠ id) →
      b.editNamed id (level.map Level.name) tags = .error (.recordMissing id) ∧
      (Failure.recordMissing id).isA .storeFailure = true ∧
      ∀ (store : Store) s, (store.load s).1 = .ok b →
        (store.update id (level.map Level.name) tags).Reads s (.error (.recordMissing id)) []) ∧
    ((∃ r ∈ b.records, r.id = id) → ∃ b' key r edited,
      b.editNamed id (level.map Level.name) tags = .ok (b', edited) ∧
      b.EditsFirst b' id key r edited ∧
      edited = { r with
        level := level.getD r.level
        tags := (tags.map fun ts => ts.filter fun t => !t.isEmpty).getD r.tags } ∧
      b'.paths = b.paths ∧
      (b'.files.map fun f => f.2.length) = (b.files.map fun f => f.2.length) ∧
      ∀ (store : Store) s, (store.load s).1 = .ok b →
        (∃ s', store.update id (level.map Level.name) tags s = (.ok edited, s') ∧
          (store.load s').1 = .ok b') ∨
        ∃ path e, store = .file path ∧ written s.files path b' = .error e ∧
          (store.update id (level.map Level.name) tags).Reads s
            (.error (.storeUnwritable path.toText e)) []) := by
  have hnamed := b.editNamed_of_level id level tags
  constructor
  · intro hnone
    rw [Batch.edit?_eq_none_iff.mpr hnone] at hnamed
    exact ⟨hnamed, rfl, fun store s hload => reads_update_of_error hload hnamed⟩
  · intro hsome
    obtain ⟨key, r, hfirst⟩ := Batch.exists_firstWith_of_mem hsome
    obtain ⟨b', hedit, hedits⟩ := hfirst.exists_editsFirst ⟨level, tags⟩
    rw [hedit] at hnamed
    exact ⟨b', key, r, _, hnamed, hedits, rfl, hedits.paths_eq, hedits.lengths_eq,
      fun store s hload => update_of_editNamed hload hnamed⟩

end Store

end Marginalia
