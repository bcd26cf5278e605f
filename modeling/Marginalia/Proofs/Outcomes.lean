import Marginalia.Proofs.Workflows

/-!
How updates end. An update reads what is stored and what is in the sources, asks a classifier about
what is new, and saves; the first of these steps that fails ends it. Whatever is said of updates
follows from these three ways to end.
-/

namespace Marginalia

namespace Run

variable {α β : Type} {work : Run α} {next : α → Run β} {s : Session} {asked : List Question}
  {r : Except Failure α}

/-- What holds of a failure of the first step and of the work after its success holds of the whole
work. -/
theorem Reads.bind_cases {R : Except Failure β × Session → Prop} (h : work.Reads s r asked)
    (herror : ∀ f s', r = .error f → s.Extends s' asked → R (.error f, s'))
    (hnext : ∀ a s', r = .ok a → s.Extends s' asked → R (next a s')) : R ((work >>= next) s) := by
  obtain ⟨s', hwork, hs'⟩ := h
  cases r with
  | error f =>
      rw [bind_of_error hwork]
      exact herror f s' rfl hs'
  | ok a =>
      rw [bind_of_ok hwork]
      exact hnext a s' rfl hs'

/-- The work asks the questions and saves a batch that satisfies `Q`, unless the file of the store
cannot be written; then the store is as it was. -/
def Saves (work : Run α) (store : Store) (s : Session) (asked : List Question)
    (Q : α → Batch → Prop) : Prop :=
  ∃ r s', work s = (r, s') ∧ s'.questions = s.questions ++ asked ∧
    ((∃ a after, r = .ok a ∧ (store.load s').1 = .ok after ∧ Q a after) ∨
      ∃ path e batch, store = .file path ∧ Store.written s.files path batch = .error e ∧
        r = .error (.storeUnwritable path.toText e) ∧ store.SameIn s s')

theorem Saves.imp {Q Q' : α → Batch → Prop} {store : Store} (h : work.Saves store s asked Q)
    (hQ : ∀ a after, Q a after → Q' a after) : work.Saves store s asked Q' := by
  obtain ⟨r, s', hrun, hasked, ⟨a, after, hr, hload, ha⟩ | hfail⟩ := h
  · exact ⟨r, s', hrun, hasked, .inl ⟨a, after, hr, hload, hQ a after ha⟩⟩
  · exact ⟨r, s', hrun, hasked, .inr hfail⟩

theorem Saves.of_eq {Q : α → Batch → Prop} {store : Store} {s' : Session}
    (h : work.Saves store s asked Q) (hrun : work s = (r, s')) :
    s'.questions = s.questions ++ asked ∧
      ((∃ a after, r = .ok a ∧ (store.load s').1 = .ok after ∧ Q a after) ∨
        ∃ f, r = .error f ∧ store.SameIn s s') := by
  obtain ⟨r', t, hrun', hasked, hend⟩ := h
  cases hrun.symm.trans hrun'
  rcases hend with hsaved | ⟨path, e, batch, -, -, hr, hsame⟩
  · exact ⟨hasked, .inl hsaved⟩
  · exact ⟨hasked, .inr ⟨_, hr, hsame⟩⟩

theorem Saves.stores {Q : α → Batch → Prop} {R : Batch → Prop} {store : Store}
    (h : work.Saves store s asked Q) (hQ : ∀ a after, Q a after → R after) :
    work.Stores store s R := by
  obtain ⟨r, s', hrun, -, ⟨a, after, hr, hload, ha⟩ | ⟨path, e, batch, -, -, hr, hsame⟩⟩ := h
  · exact ⟨r, s', hrun, .inr ⟨a, after, hr, hload, hQ a after ha⟩⟩
  · exact ⟨r, s', hrun, .inl ⟨_, hr, hsame⟩⟩

/-- A batch that the store can hold is saved at the end of work that has only read before. -/
theorem saves_of_save {Q : α → Batch → Prop} {store : Store} {batch : Batch} {a : α}
    {t s' : Session} {u : Except Failure Unit} (hrun : work s = ((fun _ => a) <$> u, s'))
    (hsave : store.save batch t = (u, s')) (hs : s.Extends t asked) (hcan : store.CanHold batch)
    (hQ : Q a (store.kept batch)) : work.Saves store s asked Q := by
  refine ⟨_, _, hrun, ?_⟩
  rcases Store.load_save_kept hcan t with ⟨t', hdone, hload, hasked⟩ | ⟨path, e, hstore, hw, hdone⟩
  · cases hdone.symm.trans hsave
    exact ⟨hasked.trans hs.questions, .inl ⟨a, _, rfl, hload, hQ⟩⟩
  · cases hdone.symm.trans hsave
    rw [hs.files] at hw
    exact ⟨hs.questions, .inr ⟨path, e, batch, hstore, hw, rfl, Store.sameIn_of_extends store hs⟩⟩

end Run

/-- The fresh records of a file against those that are stored under its path. -/
def Batch.against (stored : Batch) (path : Text) (fresh : List Record) : Reconciliation :=
  Reconciliation.separate ((stored.get? path).getD []) fresh

/-- The records are the same but for ids. -/
def Record.SameButIds (rs rs' : List Record) : Prop :=
  rs.map (fun r => r.withId 0) = rs'.map fun r => r.withId 0

/-! ## Records that a store keeps as they are -/

/-- The store keeps the record as it is. -/
def Store.Keeps : Store → Record → Prop
  | memory, _ => True
  | file _, r => r.WellFormed

namespace Store

variable {store : Store} {b : Batch} {r : Record}

theorem keeps_of_wellFormed (h : r.WellFormed) : store.Keeps r := by
  cases store with
  | memory => trivial
  | file path => exact h

theorem tidy_of_keeps (h : store.Keeps r) : store.tidy r = r := by
  cases store with
  | memory => rfl
  | file path => exact h.tidied_eq

theorem kept_of_keeps (h : b.All store.Keeps) : store.kept b = b := by
  cases store with
  | memory => rfl
  | file path => exact Batch.WellFormed.tidied_eq h

theorem canHold_of_keeps (h : b.All store.Keeps) : store.CanHold b := by
  cases store with
  | memory => trivial
  | file path => exact Batch.WellFormed.storable h

theorem keeps_of_load {s : Session} (h : (store.load s).1 = .ok b) : b.All store.Keeps := by
  cases store with
  | memory => exact fun _ _ _ _ => trivial
  | file path => exact wellFormed_of_loadFile h

theorem Keeps.withId (h : store.Keeps r) (id : Int) : store.Keeps (r.withId id) := by
  cases store with
  | memory => trivial
  | file path => exact Record.WellFormed.withId h id

theorem kept_numbered (h : b.All store.Keeps) : store.kept b.numbered = b.numbered :=
  kept_of_keeps (h.numbered fun _ id hr => hr.withId id)

/-- This is what the store keeps of the records, but for ids. -/
def KeepsAs (store : Store) (records saved : List Record) : Prop :=
  saved.map (fun r => r.withId 0) = records.map fun r => (store.tidy r).withId 0

theorem exists_get?_kept {path : Text} {records : List Record} (hget : b.get? path = some records) :
    ∃ saved, (store.kept b.numbered).get? path = some saved ∧ store.KeepsAs records saved := by
  apply Option.map_eq_some_iff.mp
  rw [map_get?_kept, Batch.map_get?_numbered fun r i => by rw [← withId_tidy]; rfl, hget]
  rfl

theorem map_tidy_withId (rs : List Record) :
    (rs.map fun r => (store.tidy r).withId 0) = (rs.map fun r => r.withId 0).map store.tidy := by
  rw [List.map_map]
  exact List.map_congr_left fun r _ => withId_tidy r 0

theorem KeepsAs.sameButIds {records records' saved saved' : List Record}
    (h : store.KeepsAs records saved) (h' : store.KeepsAs records' saved')
    (hsame : Record.SameButIds records records') : Record.SameButIds saved saved' := by
  rw [KeepsAs, map_tidy_withId] at h h'
  rw [Record.SameButIds, h, h', hsame]

theorem KeepsAs.of_keeps {records saved : List Record} (h : store.KeepsAs records saved)
    (hkeeps : ∀ r ∈ records, store.Keeps r) : Record.SameButIds saved records := by
  refine h.trans (List.map_congr_left fun r hr => ?_)
  rw [tidy_of_keeps (hkeeps r hr)]

/-- A well-formed record with the labels of a record that the store keeps. -/
theorem Keeps.relabel {k : Record} (h : store.Keeps k) (hr : r.WellFormed) :
    store.Keeps { r with tags := k.tags, level := k.level } := by
  cases store with
  | memory => trivial
  | file path => exact ⟨hr.trimmed, hr.content_ne_nil, h.tags_ne_nil, hr.rows_nonneg, hr.rows_le⟩

theorem keeps_preserved {previous fresh : List Record} (hprevious : ∀ k ∈ previous, store.Keeps k)
    (hfresh : ∀ r ∈ fresh, r.WellFormed) :
    ∀ r ∈ (Reconciliation.separate previous fresh).preserved, store.Keeps r := by
  intro r hr
  obtain ⟨own, hown, hr⟩ := List.mem_filterMap.mp hr
  obtain ⟨k, hk, rfl⟩ := Option.map_eq_some_iff.mp hr
  exact (hprevious k (List.mem_reverse.mp (List.mem_of_find?_eq_some hk))).relabel (hfresh own hown)

end Store

namespace Workflow

variable (w : Workflow)

/-! ## One file -/

/-- An update of a file reads this batch in the store and these records in the file. -/
structure ReadsFile (file root : Path) (s : Session) (stored : Batch) (fresh : List Record) :
    Prop where
  load : (w.store.load s).1 = .ok stored
  extracted : w.extracted s.files file root = .ok fresh

namespace ReadsFile

variable {w} {file root : Path} {s : Session} {stored stored' : Batch}
  {fresh fresh' answers : List Record}

theorem unique (h : w.ReadsFile file root s stored fresh)
    (h' : w.ReadsFile file root s stored' fresh') : stored = stored' ∧ fresh = fresh' :=
  ⟨Except.ok.inj (h.load.symm.trans h'.load), Except.ok.inj (h.extracted.symm.trans h'.extracted)⟩

theorem wellFormed (h : w.ReadsFile file root s stored fresh) : ∀ r ∈ fresh, r.WellFormed :=
  wellFormed_of_mem_extracted h.extracted

theorem canHold (h : w.ReadsFile file root s stored fresh) (hanswers : ∀ r ∈ answers, r.Storable) :
    w.store.CanHold (stored.put file.toText
      ((stored.against file.toText fresh).preserved ++ answers)).numbered := by
  apply ((Store.canHold_of_load h.load).put _ _).numbered
  intro r hr
  have hfresh : ∀ r ∈ fresh, r.Storable := fun r hr => (h.wellFormed r hr).storable
  rcases List.mem_append.mp hr with hold | hnew
  · exact (Reconciliation.storable_separate _ hfresh).1 r hold
  · exact hanswers r hnew

theorem storable_answers (hw : w.AnswersValid) (h : w.ReadsFile file root s stored fresh)
    (hanswers : w.classified (stored.against file.toText fresh).toReclassify = .ok answers) :
    ∀ r ∈ answers, r.Storable := by
  have hfresh : ∀ r ∈ fresh, r.Storable := fun r hr => (h.wellFormed r hr).storable
  exact storable_of_classified hw (Reconciliation.storable_separate _ hfresh).2 hanswers

end ReadsFile

/-- How an update of one file ends. -/
inductive FileUpdate (file root : Path) (s : Session) :
    Except Failure Reconciliation → Session → Prop where
  | unread {f : Failure} {s' : Session} :
      (∀ stored fresh, ¬ w.ReadsFile file root s stored fresh) → s.Extends s' [] →
      FileUpdate file root s (.error f) s'
  | unclassified {stored : Batch} {fresh : List Record} {f : Failure} {s' : Session} :
      w.ReadsFile file root s stored fresh →
      w.classified (stored.against file.toText fresh).toReclassify = .error f →
      s.Extends s' (w.questionsOn (stored.against file.toText fresh).toReclassify) →
      FileUpdate file root s (.error f) s'
  | saving {stored : Batch} {fresh answers : List Record} {t s' : Session}
      {u : Except Failure Unit} :
      w.ReadsFile file root s stored fresh →
      w.classified (stored.against file.toText fresh).toReclassify = .ok answers →
      s.Extends t (w.questionsOn (stored.against file.toText fresh).toReclassify) →
      w.store.save (stored.put file.toText
        ((stored.against file.toText fresh).preserved ++ answers)).numbered t = (u, s') →
      FileUpdate file root s
        ((fun _ => ⟨(stored.against file.toText fresh).preserved, answers⟩) <$> u) s'

theorem fileUpdate (path root : Path) (s : Session) :
    w.FileUpdate (s.files.resolve path) root s (w.updateFile path root s).1
      (w.updateFile path root s).2 := by
  -- Each step fails and ends the update, or the next one starts in the session that it has left;
  -- up to the last one these differ by notes and questions only.
  have hend : ∀ {f s'}, (∀ stored fresh, ¬ w.ReadsFile (s.files.resolve path) root s stored fresh) →
      s.Extends s' [] → w.FileUpdate (s.files.resolve path) root s (.error f) s' := .unread
  apply (Run.reads_get s).bind_cases
    (R := fun o => w.FileUpdate (s.files.resolve path) root s o.1 o.2)
  · rintro f s' ⟨⟩
  rintro _ s₁ ⟨⟩ h₁
  apply (reads_extractFile (w := w) _ root s₁).bind_cases
    (R := fun o => w.FileUpdate (s.files.resolve path) root s o.1 o.2)
  · intro f s' hf h
    rw [h₁.files] at hf
    exact hend (fun stored fresh hread => by cases hf.symm.trans hread.extracted) (h₁.trans h)
  intro fresh s₂ hfresh h
  rw [h₁.files] at hfresh
  have h₂ := h₁.trans h
  apply (Store.reads_load w.store s₂).bind_cases
    (R := fun o => w.FileUpdate (s.files.resolve path) root s o.1 o.2)
  · intro f s' hf h
    rw [(Store.sameIn_of_extends w.store h₂).load_eq] at hf
    exact hend (fun stored fresh hread => by cases hf.symm.trans hread.load) (h₂.trans h)
  intro stored s₃ hload h
  rw [(Store.sameIn_of_extends w.store h₂).load_eq] at hload
  have h₃ := h₂.trans h
  apply (Run.reads_note _ s₃).bind_cases
    (R := fun o => w.FileUpdate (s.files.resolve path) root s o.1 o.2)
  · rintro f s' ⟨⟩
  rintro _ s₄ ⟨⟩ h
  have h₄ := h₃.trans h
  have hread : w.ReadsFile (s.files.resolve path) root s stored fresh := ⟨hload, hfresh⟩
  apply (reads_classify (w := w) _ s₄).bind_cases
    (R := fun o => w.FileUpdate (s.files.resolve path) root s o.1 o.2)
  · intro f s' hf h
    exact .unclassified hread hf (h₄.trans h)
  intro answers s₅ hanswers h
  have h₅ := h₄.trans h
  rcases hsave : w.store.save (stored.put (s.files.resolve path).toText
      ((stored.against (s.files.resolve path).toText fresh).preserved ++ answers)).numbered s₅ with
    ⟨f | done, s₆⟩
  · exact Run.bind_of_error hsave ▸ FileUpdate.saving hread hanswers h₅ hsave
  · exact Run.bind_of_ok hsave ▸ FileUpdate.saving hread hanswers h₅ hsave

theorem fileUpdate_of_eq {path root : Path} {s s' : Session} {r : Except Failure Reconciliation}
    (hrun : w.updateFile path root s = (r, s')) :
    w.FileUpdate (s.files.resolve path) root s r s' := by
  have hend := w.fileUpdate path root s
  rw [hrun] at hend
  exact hend

/-- An update saves, if the classifier answers what can be stored. -/
theorem updateFile_saves {path root : Path} {s : Session} {stored : Batch}
    {fresh answers : List Record} (hread : w.ReadsFile (s.files.resolve path) root s stored fresh)
    (hanswers : w.classified
      (stored.against (s.files.resolve path).toText fresh).toReclassify = .ok answers)
    (hstorable : ∀ r ∈ answers, r.Storable) :
    (w.updateFile path root).Saves w.store s
      (w.questionsOn (stored.against (s.files.resolve path).toText fresh).toReclassify)
      fun result after =>
        result = ⟨(stored.against (s.files.resolve path).toText fresh).preserved, answers⟩ ∧
        after = w.store.kept (stored.put (s.files.resolve path).toText
          ((stored.against (s.files.resolve path).toText fresh).preserved ++ answers)).numbered := by
  rcases hrun : w.updateFile path root s with ⟨r, s'⟩
  cases w.fileUpdate_of_eq hrun with
  | unread hnone _ => exact absurd hread (hnone stored fresh)
  | unclassified hread' hfailed _ =>
      obtain ⟨rfl, rfl⟩ := hread.unique hread'
      cases hfailed.symm.trans hanswers
  | saving hread' hanswers' hs hsave =>
      obtain ⟨rfl, rfl⟩ := hread.unique hread'
      cases hanswers.symm.trans hanswers'
      exact Run.saves_of_save hrun hsave hs (hread.canHold hstorable) ⟨rfl, rfl⟩

/-- What an update that has succeeded has read, asked and stored. -/
theorem load_of_updateFile (hw : w.AnswersValid) {path root : Path} {s s' : Session}
    {result : Reconciliation} (hrun : w.updateFile path root s = (.ok result, s')) :
    ∃ stored fresh answers, w.ReadsFile (s.files.resolve path) root s stored fresh ∧
      w.classified (stored.against (s.files.resolve path).toText fresh).toReclassify =
        .ok answers ∧
      s'.questions = s.questions ++
        w.questionsOn (stored.against (s.files.resolve path).toText fresh).toReclassify ∧
      (w.store.load s').1 = .ok (w.store.kept (stored.put (s.files.resolve path).toText
        ((stored.against (s.files.resolve path).toText fresh).preserved ++ answers)).numbered) := by
  have hend := w.fileUpdate_of_eq hrun
  generalize hr : Except.ok result = r at hend
  cases hend with
  | unread _ _ => cases hr
  | unclassified _ _ _ => cases hr
  | @saving stored fresh answers t _ u hread hanswers _ _ =>
      refine ⟨stored, fresh, answers, hread, hanswers, ?_⟩
      have hsaves := w.updateFile_saves hread hanswers (hread.storable_answers hw hanswers)
      obtain ⟨hasked, ⟨_, _, ⟨⟩, hload, -, rfl⟩ | ⟨_, ⟨⟩, -⟩⟩ := hsaves.of_eq hrun
      exact ⟨hasked, hload⟩

variable {w} in
theorem updateFile_stores (hw : w.AnswersValid) (path root : Path) (s : Session) :
    (w.updateFile path root).Stores w.store s Batch.Counted := by
  rcases hrun : w.updateFile path root s with ⟨r, s'⟩
  cases w.fileUpdate_of_eq hrun with
  | unread _ hs => exact ⟨_, s', hrun, .inl ⟨_, rfl, Store.sameIn_of_extends w.store hs⟩⟩
  | unclassified _ _ hs =>
      exact ⟨_, s', hrun, .inl ⟨_, rfl, Store.sameIn_of_extends w.store hs⟩⟩
  | saving hread hanswers _ _ =>
      refine (w.updateFile_saves hread hanswers (hread.storable_answers hw hanswers)).stores ?_
      rintro result after ⟨-, rfl⟩
      exact Batch.counted_numbered.of_ids (w.store.ids_kept _)

/-! ## The whole workspace -/

/-- What comes of classifying the files with something to classify. -/
def answered (pending : Batch) : Except Failure Batch :=
  match w.classifier with
  | some c => if pending.files.isEmpty then .ok pending else c.all pending
  | none => .ok pending

/-- What a classifier is asked about these files. -/
def questionsAbout (pending : Batch) : List Question :=
  if w.classifier.isSome = true ∧ pending.files ≠ [] then [.all pending] else []

theorem reads_classifyPending (pending : Batch) (s : Session) :
    (w.classifyPending pending).Reads s (w.answered pending) (w.questionsAbout pending) := by
  unfold classifyPending answered questionsAbout
  cases w.classifier with
  | none => exact Run.reads_pure pending s
  | some c =>
      dsimp only
      split
      · rename_i hempty
        rw [if_neg fun h => h.2 (List.isEmpty_iff.mp hempty)]
        exact Run.reads_pure pending s
      · rename_i hfiles
        rw [if_pos ⟨rfl, fun h => hfiles (List.isEmpty_iff.mpr h)⟩]
        exact Run.reads_askAll c pending s

theorem extractTree_fst (root : Path) (s : Session) : (w.extractTree root s).1 =
    w.enriched (s.files.extractTree w.grammar w.settings root).2 := by
  obtain ⟨t, hrun, -⟩ := reads_extractTree (w := w) root s
  rw [hrun]

/-- An update of a workspace reads this batch in the store and that one in the sources. -/
structure ReadsWorkspace (root : Path) (s : Session) (stored current : Batch) : Prop where
  load : (w.store.load s).1 = .ok stored
  extracted : w.enriched (s.files.extractTree w.grammar w.settings root).2 = .ok current

end Workflow

/-- What is stored of a file after the answers: what was known of it, and then the answers about
it, or what there was to classify where there is no answer. -/
def Batch.reconciled (stored answers : Batch) (path : Text) (fresh : List Record) : List Record :=
  (stored.against path fresh).preserved ++
    (answers.get? path).getD (stored.against path fresh).toReclassify

namespace Workflow

/-- What has to be classified again of a workspace. -/
def toClassify (stored current : Batch) : Batch := pending (Reconciliation.ofBatches stored current)

/-- The answer of an update of a workspace. -/
def merging (stored current answers : Batch) : List (Text × Reconciliation) :=
  settled answers (Reconciliation.ofBatches stored current)

variable {w : Workflow} {root : Path} {s : Session} {stored stored' current current' answers : Batch}
  {path : Text} {fresh records : List Record}

theorem map_merged_merging (stored current answers : Batch) :
    (merging stored current answers).map (fun r => (r.1, r.2.merged)) =
      (current.mapFiles (stored.reconciled answers)).files := by
  unfold merging settled Reconciliation.ofBatches
  rw [List.map_map, List.map_map]
  rfl

theorem ofList_merging (stored current answers : Batch) :
    Batch.ofList ((merging stored current answers).map fun r => (r.1, r.2.merged)) =
      current.mapFiles (stored.reconciled answers) := by
  rw [map_merged_merging, Batch.ofList_files]

theorem files_toClassify (stored current : Batch) :
    (toClassify stored current).files =
      (current.files.filter fun f => !(stored.against f.1 f.2).toReclassify.isEmpty).map
        fun f => (f.1, (stored.against f.1 f.2).toReclassify) := by
  have hpending : toClassify stored current = Batch.ofList
      ((current.files.filter fun f => !(stored.against f.1 f.2).toReclassify.isEmpty).map
        fun f => (f.1, (stored.against f.1 f.2).toReclassify)) := by
    unfold toClassify pending Reconciliation.ofBatches
    rw [List.filter_map, List.map_map]
    rfl
  rw [hpending, Batch.files_ofList]
  rw [List.map_map]
  exact current.distinct.sublist (List.filter_sublist.map Prod.fst)

/-- The files that a classifier is asked about are those with something to classify. -/
theorem get?_toClassify_eq_some_iff :
    (toClassify stored current).get? path = some records ↔
      ∃ fresh, current.get? path = some fresh ∧
        (stored.against path fresh).toReclassify = records ∧ records ≠ [] := by
  simp only [Batch.get?_eq_some_iff, files_toClassify, List.mem_map, List.mem_filter,
    Bool.not_eq_eq_eq_not, Bool.not_true, List.isEmpty_eq_false_iff]
  constructor
  · rintro ⟨⟨path, fresh⟩, ⟨hmem, hne⟩, ⟨⟩⟩
    exact ⟨fresh, hmem, rfl, hne⟩
  · rintro ⟨fresh, hmem, rfl, hne⟩
    exact ⟨(path, fresh), ⟨hmem, hne⟩, rfl⟩

namespace ReadsWorkspace

theorem wellFormed (h : w.ReadsWorkspace root s stored current) : current.WellFormed :=
  all_of_enriched (Files.wellFormed_extractTree _ _ _ _) h.extracted
    fun _ date hr => hr.withCommitDate date

theorem unique (h : w.ReadsWorkspace root s stored current)
    (h' : w.ReadsWorkspace root s stored' current') : stored = stored' ∧ current = current' :=
  ⟨Except.ok.inj (h.load.symm.trans h'.load), Except.ok.inj (h.extracted.symm.trans h'.extracted)⟩

end ReadsWorkspace

theorem storable_toClassify (stored : Batch) (hcurrent : current.WellFormed) :
    (toClassify stored current).Storable := by
  rintro ⟨path, records⟩ hf
  obtain ⟨fresh, hfresh, rfl, -⟩ := get?_toClassify_eq_some_iff.mp (Batch.get?_eq_some_iff.mpr hf)
  exact (Reconciliation.storable_separate _
    (hcurrent.storable _ (Batch.get?_eq_some_iff.mp hfresh))).2

theorem storable_of_answered (hw : w.AnswersValid) (hcurrent : current.WellFormed)
    (hanswers : w.answered (toClassify stored current) = .ok answers) : answers.Storable := by
  have hpending := storable_toClassify stored hcurrent
  unfold answered at hanswers
  split at hanswers
  · rename_i c hc
    split at hanswers
    · cases hanswers
      exact hpending
    · exact (hw c hc).all _ _ hpending hanswers
  · cases hanswers
    exact hpending

/-- What holds of what is known, of what there is to classify and of the answers holds of everything
that is saved. -/
theorem all_reconciled {P : Record → Prop} (hanswers : answers.All P)
    (hparts : ∀ f ∈ current.files, (∀ r ∈ (stored.against f.1 f.2).preserved, P r) ∧
      ∀ r ∈ (stored.against f.1 f.2).toReclassify, P r) :
    (current.mapFiles (stored.reconciled answers)).All P := by
  intro e he r hr
  obtain ⟨⟨path, fresh⟩, hf, rfl⟩ := List.mem_map.mp he
  rcases List.mem_append.mp hr with hold | hnew
  · exact (hparts _ hf).1 r hold
  · have hown := Batch.All.get? hanswers path
    cases hget : answers.get? path with
    | some own =>
        rw [hget] at hnew hown
        exact hown r hnew
    | none =>
        rw [hget] at hnew
        exact (hparts _ hf).2 r hnew

theorem storable_reconciled (hcurrent : current.WellFormed) (hanswers : answers.Storable) :
    (current.mapFiles (stored.reconciled answers)).Storable :=
  all_reconciled hanswers fun f hf => Reconciliation.storable_separate _ (hcurrent.storable f hf)

theorem exists_get?_reconciled (store : Store) (stored answers : Batch)
    (hfresh : current.get? path = some fresh) :
    ∃ saved, (store.kept (current.mapFiles (stored.reconciled answers)).numbered).get? path =
        some saved ∧ store.KeepsAs (stored.reconciled answers path fresh) saved := by
  apply Store.exists_get?_kept
  rw [Batch.get?_mapFiles, hfresh, Option.map_some]

/-- How an update of a workspace ends. -/
inductive WorkspaceUpdate (w : Workflow) (root : Path) (s : Session) :
    Except Failure (List (Text × Reconciliation)) → Session → Prop where
  | unread {f : Failure} {s' : Session} :
      (∀ stored current, ¬ w.ReadsWorkspace root s stored current) → s.Extends s' [] →
      WorkspaceUpdate w root s (.error f) s'
  | unclassified {stored current : Batch} {f : Failure} {s' : Session} :
      w.ReadsWorkspace root s stored current →
      w.answered (toClassify stored current) = .error f →
      s.Extends s' (w.questionsAbout (toClassify stored current)) →
      WorkspaceUpdate w root s (.error f) s'
  | saving {stored current answers : Batch} {t s' : Session} {u : Except Failure Unit} :
      w.ReadsWorkspace root s stored current →
      w.answered (toClassify stored current) = .ok answers →
      s.Extends t (w.questionsAbout (toClassify stored current)) →
      w.store.save (current.mapFiles (stored.reconciled answers)).numbered t = (u, s') →
      WorkspaceUpdate w root s ((fun _ => merging stored current answers) <$> u) s'

theorem workspaceUpdate (w : Workflow) (root : Path) (s : Session) :
    w.WorkspaceUpdate root s (w.updateWorkspace root s).1 (w.updateWorkspace root s).2 := by
  apply (reads_extractTree (w := w) root s).bind_cases
    (R := fun o => w.WorkspaceUpdate root s o.1 o.2)
  · intro f s' hf h
    exact .unread (fun stored current hread => by cases hf.symm.trans hread.extracted) h
  intro current s₁ hcurrent h₁
  apply (Store.reads_load w.store s₁).bind_cases
    (R := fun o => w.WorkspaceUpdate root s o.1 o.2)
  · intro f s' hf h
    rw [(Store.sameIn_of_extends w.store h₁).load_eq] at hf
    exact .unread (fun stored current hread => by cases hf.symm.trans hread.load) (h₁.trans h)
  intro stored s₂ hload h
  rw [(Store.sameIn_of_extends w.store h₁).load_eq] at hload
  have h₂ := h₁.trans h
  have hread : w.ReadsWorkspace root s stored current := ⟨hload, hcurrent⟩
  apply (reads_classifyPending (w := w) (toClassify stored current) s₂).bind_cases
    (R := fun o => w.WorkspaceUpdate root s o.1 o.2)
  · intro f s' hf h
    exact .unclassified hread hf (h₂.trans h)
  intro answers s₃ hanswers h
  have h₃ := h₂.trans h
  rcases hsave : w.store.save (current.mapFiles (stored.reconciled answers)).numbered s₃ with
    ⟨f | done, s₄⟩
  · have hsaving := WorkspaceUpdate.saving hread hanswers h₃ hsave
    rw [← ofList_merging] at hsave
    exact Run.bind_of_error hsave ▸ hsaving
  · have hsaving := WorkspaceUpdate.saving hread hanswers h₃ hsave
    rw [← ofList_merging] at hsave
    exact Run.bind_of_ok hsave ▸ hsaving

theorem workspaceUpdate_of_eq {s' : Session} {r : Except Failure (List (Text × Reconciliation))}
    (hrun : w.updateWorkspace root s = (r, s')) : w.WorkspaceUpdate root s r s' := by
  have hend := w.workspaceUpdate root s
  rw [hrun] at hend
  exact hend

theorem updateWorkspace_saves (hread : w.ReadsWorkspace root s stored current)
    (hanswers : w.answered (toClassify stored current) = .ok answers)
    (hstorable : answers.Storable) :
    (w.updateWorkspace root).Saves w.store s (w.questionsAbout (toClassify stored current))
      fun results after => results = merging stored current answers ∧
        after = w.store.kept (current.mapFiles (stored.reconciled answers)).numbered := by
  rcases hrun : w.updateWorkspace root s with ⟨r, s'⟩
  cases workspaceUpdate_of_eq hrun with
  | unread hnone _ => exact absurd hread (hnone stored current)
  | unclassified hread' hfailed _ =>
      obtain ⟨rfl, rfl⟩ := hread.unique hread'
      cases hfailed.symm.trans hanswers
  | saving hread' hanswers' hs hsave =>
      obtain ⟨rfl, rfl⟩ := hread.unique hread'
      cases hanswers.symm.trans hanswers'
      have hcan : w.store.CanHold (current.mapFiles (stored.reconciled answers)) :=
        Store.canHold_of_storable (storable_reconciled hread.wellFormed hstorable)
      exact Run.saves_of_save hrun hsave hs hcan.numbered ⟨rfl, rfl⟩

theorem updateWorkspace_stores (hw : w.AnswersValid) (root : Path) (s : Session) :
    (w.updateWorkspace root).Stores w.store s Batch.Counted := by
  rcases hrun : w.updateWorkspace root s with ⟨r, s'⟩
  cases workspaceUpdate_of_eq hrun with
  | unread _ hs => exact ⟨_, s', hrun, .inl ⟨_, rfl, Store.sameIn_of_extends w.store hs⟩⟩
  | unclassified _ _ hs =>
      exact ⟨_, s', hrun, .inl ⟨_, rfl, Store.sameIn_of_extends w.store hs⟩⟩
  | saving hread hanswers _ _ =>
      have hstorable := storable_of_answered hw hread.wellFormed hanswers
      refine (updateWorkspace_saves hread hanswers hstorable).stores ?_
      rintro results after ⟨-, rfl⟩
      exact Batch.counted_numbered.of_ids (w.store.ids_kept _)

end Workflow

end Marginalia
