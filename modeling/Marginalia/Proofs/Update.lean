import Marginalia.Proofs.Runs

/-!
Updates of one file. The file is replaced by its fresh extraction, up to what a classifier says of
it, and nothing else that is stored changes but ids.
-/

namespace Marginalia

/-! ## Records up to their labels -/

namespace Record

/-- The record without what a classifier gives it. -/
def unlabelled (r : Record) : Record := { r with tags := [], level := .inline }

/-- The record without what a classifier gives it, and without its id. -/
def bare (r : Record) : Record := r.unlabelled.withId 0

theorem map_bare {rs rs' : List Record} (h : rs.map unlabelled = rs'.map unlabelled) :
    rs.map bare = rs'.map bare := by
  have hids := congrArg (List.map fun r => r.withId 0) h
  rw [List.map_map, List.map_map] at hids
  exact hids

/-- Labels do not matter for whether records can be stored. -/
theorem storable_of_map_unlabelled {rs rs' : List Record}
    (h : rs.map unlabelled = rs'.map unlabelled) (hrs' : ∀ r ∈ rs', r.Storable) :
    ∀ r ∈ rs, r.Storable := by
  intro r hr
  have hmem : r.unlabelled ∈ rs'.map unlabelled := h ▸ List.mem_map_of_mem hr
  obtain ⟨r', hr', hsame⟩ := List.mem_map.mp hmem
  have hcontent : r'.unlabelled.content = r.unlabelled.content := by rw [hsame]
  have hrows : r'.unlabelled.rows = r.unlabelled.rows := by rw [hsame]
  exact (hrs' r' hr').congr hcontent.symm hrows.symm

end Record

/-! ## What is known and what is new -/

namespace Reconciliation

/-- The fresh records whose content was stored before. -/
def seenIn (stored fresh : List Record) : List Record :=
  fresh.filter fun r => r.content ∈ stored.map Record.content

/-- The fresh records whose content was not. -/
def newTo (stored fresh : List Record) : List Record :=
  fresh.filter fun r => !decide (r.content ∈ stored.map Record.content)

variable {stored fresh : List Record}

theorem seenIn_append_newTo_perm (stored fresh : List Record) :
    (seenIn stored fresh ++ newTo stored fresh).Perm fresh :=
  List.filter_append_perm _ fresh

theorem isSome_known? (stored : List Record) (content : Text) :
    (known? stored content).isSome = decide (content ∈ stored.map Record.content) := by
  unfold known?
  rw [Bool.eq_iff_iff, List.find?_isSome, decide_eq_true_eq, List.mem_map]
  simp only [List.mem_reverse, beq_iff_eq]

theorem toReclassify_separate (stored fresh : List Record) :
    (separate stored fresh).toReclassify = (newTo stored fresh).map fun r => r.withTags [] := by
  unfold newTo
  have hfilter : (fresh.filter fun r => (known? stored r.content).isNone) =
      fresh.filter fun r => !decide (r.content ∈ stored.map Record.content) := by
    apply List.filter_congr
    intro r _
    rw [← isSome_known?, Option.not_isSome]
  rw [← hfilter]
  rfl

/-- Known records differ from the fresh ones by their labels. -/
theorem map_unlabelled_preserved (stored fresh : List Record) :
    (separate stored fresh).preserved.map Record.unlabelled =
      (seenIn stored fresh).map Record.unlabelled := by
  change (fresh.filterMap fun r => (known? stored r.content).map fun k =>
    { r with tags := k.tags, level := k.level }).map Record.unlabelled = _
  unfold seenIn
  induction fresh with
  | nil => rfl
  | cons r rs ih =>
      have hknown := isSome_known? stored r.content
      cases hr : known? stored r.content with
      | none =>
          rw [hr, Option.isSome_none] at hknown
          rw [List.filterMap_cons_none (by rw [hr]; rfl), List.filter_cons, ← hknown,
            if_neg Bool.false_ne_true]
          exact ih
      | some k =>
          rw [hr, Option.isSome_some] at hknown
          rw [List.filterMap_cons_some (by rw [hr]; rfl), List.filter_cons, ← hknown, if_pos rfl,
            List.map_cons, List.map_cons, ih]
          rfl

/-- Both parts can be stored when the fresh records can. -/
theorem storable_separate (old : List Record) (h : ∀ r ∈ fresh, r.Storable) :
    (∀ r ∈ (separate old fresh).preserved, r.Storable) ∧
      ∀ r ∈ (separate old fresh).toReclassify, r.Storable := by
  constructor
  · apply Record.storable_of_map_unlabelled (map_unlabelled_preserved old fresh)
    intro r hr
    exact h r (List.mem_of_mem_filter hr)
  · intro r hr
    rw [toReclassify_separate] at hr
    obtain ⟨own, hown, rfl⟩ := List.mem_map.mp hr
    exact (h own (List.mem_of_mem_filter hown)).congr rfl rfl

end Reconciliation

/-! ## What a store keeps of a file -/

namespace Store

/-- What a store keeps of a record. -/
def tidy : Store → Record → Record
  | memory, r => r
  | file _, r => r.tidied

variable {store : Store} {b : Batch} {p : Text}

theorem map_get?_kept {β : Type} (f : Record → β) :
    ((store.kept b).get? p).map (List.map f) =
      (b.get? p).map (List.map fun r => f (store.tidy r)) := by
  cases store with
  | memory => rfl
  | file path =>
      unfold kept Batch.tidied
      rw [Batch.get?_mapFiles, Option.map_map]
      apply Option.map_congr
      intro rs _
      exact List.map_map

theorem paths_kept : (store.kept b).paths = b.paths := by
  cases store with
  | memory => rfl
  | file path => exact Batch.paths_mapFiles _

theorem bare_tidy (r : Record) : (store.tidy r).bare = r.bare := by
  cases store <;> rfl

theorem withId_tidy (r : Record) (id : Int) : (store.tidy r).withId id = store.tidy (r.withId id) := by
  cases store <;> rfl

section

variable {β : Type} {f : Record → β} (hf : ∀ r i, f (r.withId i) = f r) {key : Text}
  {records : List Record}

include hf

/-- What is kept of a file that was put, but for ids. -/
theorem map_get?_kept_put_self :
    ((store.kept (b.put key records).numbered).get? key).map (List.map f) =
      some (records.map fun r => f (store.tidy r)) := by
  have hput : (b.put key records).get? key = some records := Batch.get?_put_self
  rw [map_get?_kept, Batch.map_get?_numbered fun r i => by rw [← withId_tidy, hf], hput]
  rfl

/-- What is kept of the other files is what was kept of them, but for ids. -/
theorem map_get?_kept_put_of_ne (hkept : store.kept b = b) (hp : p ≠ key) :
    ((store.kept (b.put key records).numbered).get? p).map (List.map f) =
      (b.get? p).map (List.map f) := by
  calc ((store.kept (b.put key records).numbered).get? p).map (List.map f) =
        ((b.put key records).numbered.get? p).map (List.map fun r => f (store.tidy r)) :=
        map_get?_kept f
    _ = ((b.put key records).get? p).map (List.map fun r => f (store.tidy r)) :=
        Batch.map_get?_numbered fun r i => by rw [← withId_tidy, hf]
    _ = (b.get? p).map (List.map fun r => f (store.tidy r)) := by rw [Batch.get?_put_of_ne hp]
    _ = ((store.kept b).get? p).map (List.map f) := (map_get?_kept f).symm
    _ = (b.get? p).map (List.map f) := by rw [hkept]

end

end Store

/-! ## The update -/

/-- The classifier answers with the records that it is asked about, in their order; it changes
nothing but their tags and levels. -/
def Classifier.Relabels (c : Classifier) : Prop :=
  ∀ rs, ∃ answers, c.file rs = .ok answers ∧
    answers.map Record.unlabelled = rs.map Record.unlabelled

/-- What is stored after the file at `key` has been extracted again. -/
structure Batch.Refreshed (before after : Batch) (key : Text) (fresh : List Record) : Prop where
  /-- The file holds its fresh records, the known ones first. -/
  file : ∃ saved, after.get? key = some saved ∧
    saved.map Record.bare =
      (Reconciliation.seenIn ((before.get? key).getD []) fresh ++
        Reconciliation.newTo ((before.get? key).getD []) fresh).map Record.bare ∧
    (saved.map Record.bare).Perm (fresh.map Record.bare)
  /-- The other files are as they were, but for ids. -/
  others : ∀ path, path ≠ key →
    (after.get? path).map (List.map fun r => r.withId 0) =
      (before.get? path).map (List.map fun r => r.withId 0)
  /-- The files keep their places, and a new one comes last. -/
  paths : after.paths = if key ∈ before.paths then before.paths else before.paths ++ [key]

namespace Workflow

variable {w : Workflow}

theorem exists_classified (h : ∀ c, w.classifier = some c → c.Relabels) (records : List Record) :
    ∃ answers, w.classified records = .ok answers ∧
      answers.map Record.unlabelled = records.map Record.unlabelled := by
  unfold classified
  cases hc : w.classifier with
  | none => exact ⟨records, rfl, rfl⟩
  | some c =>
      cases records with
      | nil => exact ⟨[], rfl, rfl⟩
      | cons r rs => exact h c hc (r :: rs)

variable {path root : Path} {s : Session} {stored : Batch} {fresh answers : List Record}

/-- The list that is saved, up to labels. -/
theorem map_unlabelled_saved {old : List Record}
    (h : answers.map Record.unlabelled =
      (Reconciliation.separate old fresh).toReclassify.map Record.unlabelled) :
    ((Reconciliation.separate old fresh).preserved ++ answers).map Record.unlabelled =
      (Reconciliation.seenIn old fresh ++ Reconciliation.newTo old fresh).map
        Record.unlabelled := by
  have hnew : ((Reconciliation.newTo old fresh).map fun r => r.withTags []).map
      Record.unlabelled = (Reconciliation.newTo old fresh).map Record.unlabelled := by
    rw [List.map_map]
    rfl
  rw [List.map_append, Reconciliation.map_unlabelled_preserved, h,
    Reconciliation.toReclassify_separate, hnew, List.map_append]

theorem refreshed_kept {store : Store} {key : Text} {saved : List Record}
    (hkept : store.kept stored = stored)
    (hsaved : saved.map Record.unlabelled =
      (Reconciliation.seenIn ((stored.get? key).getD []) fresh ++
        Reconciliation.newTo ((stored.get? key).getD []) fresh).map Record.unlabelled) :
    stored.Refreshed (store.kept (stored.put key saved).numbered) key fresh := by
  constructor
  · have hfile : ((store.kept (stored.put key saved).numbered).get? key).map
        (List.map Record.bare) = some (saved.map Record.bare) := by
      rw [Store.map_get?_kept_put_self fun r i => rfl]
      simp only [Store.bare_tidy]
    obtain ⟨after, hafter, hbare⟩ := Option.map_eq_some_iff.mp hfile
    have hparts := hbare.trans (Record.map_bare hsaved)
    refine ⟨after, hafter, hparts, ?_⟩
    rw [hparts]
    exact (Reconciliation.seenIn_append_newTo_perm _ _).map Record.bare
  · intro other hother
    exact Store.map_get?_kept_put_of_ne (fun r i => rfl) hkept hother
  · rw [Store.paths_kept, Batch.paths_numbered, Batch.paths_put]

/-- An update of a file ends with the file refreshed, unless the file of the store cannot be
written. The classifier is asked about the new records, if there are any, and about nothing else. -/
theorem updateFile_refreshes (hload : (w.store.load s).1 = .ok stored)
    (hfresh : (w.extractFile (s.files.resolve path) root s).1 = .ok fresh)
    (hclassifier : ∀ c, w.classifier = some c → c.Relabels) :
    let key := (s.files.resolve path).toText
    let new := Reconciliation.newTo ((stored.get? key).getD []) fresh
    ∃ r s', w.updateFile path root s = (r, s') ∧
      s'.questions = s.questions ++ (if w.classifier.isSome = true ∧ new ≠ [] then
        [.file (new.map fun r => r.withTags [])] else []) ∧
      ((∃ result after, r = .ok result ∧ (w.store.load s').1 = .ok after ∧
        stored.Refreshed after key fresh) ∨
      ∃ file e batch, w.store = .file file ∧ Store.written s.files file batch = .error e ∧
        r = .error (.storeUnwritable file.toText e)) := by
  intro key new
  have hextracted : w.extracted s.files (s.files.resolve path) root = .ok fresh := by
    obtain ⟨t, hrun, -⟩ := reads_extractFile (w := w) (s.files.resolve path) root s
    rw [hrun] at hfresh
    exact hfresh
  obtain ⟨answers, hanswers, hlabels⟩ := exists_classified hclassifier
    (Reconciliation.separate ((stored.get? key).getD []) fresh).toReclassify
  have hsaved := map_unlabelled_saved hlabels
  have hstorable : ∀ r ∈ Reconciliation.seenIn ((stored.get? key).getD []) fresh ++ new,
      r.Storable := by
    intro r hr
    have hmem := (Reconciliation.seenIn_append_newTo_perm _ _).mem_iff.mp hr
    exact (wellFormed_of_mem_extracted hextracted r hmem).storable
  have hcan := ((Store.canHold_of_load hload).put key
    (Record.storable_of_map_unlabelled hsaved hstorable)).numbered
  -- One step after the other, each in the session that the one before has left.
  unfold updateFile
  apply (Run.reads_get s).exists_bind
  intro s₀ h₀
  have hextract := reads_extractFile (w := w) (s.files.resolve path) root s₀
  rw [h₀.files, hextracted] at hextract
  apply hextract.exists_bind
  intro s₁ h₁
  have hload₁ := Store.reads_load w.store s₁
  rw [(Store.sameIn_of_extends w.store (h₀.trans h₁)).load_eq, hload] at hload₁
  apply hload₁.exists_bind
  intro s₂ h₂
  apply (Run.reads_note _ s₂).exists_bind
  intro s₃ h₃
  have hclassify := reads_classify (w := w)
    (Reconciliation.separate ((stored.get? key).getD []) fresh).toReclassify s₃
  rw [hanswers] at hclassify
  apply hclassify.exists_bind
  intro s₄ h₄
  have hall := (((h₀.trans h₁).trans h₂).trans h₃).trans h₄
  have hquestions := hall.questions
  simp only [List.nil_append, questionsOn, Reconciliation.toReclassify_separate, ne_eq,
    List.map_eq_nil_iff] at hquestions
  rcases Store.load_save_kept hcan s₄ with ⟨s₅, hsave, hafter, hasked⟩ | ⟨file, e, hstore, hw, hsave⟩
  · rw [Run.bind_of_ok hsave]
    refine ⟨_, s₅, rfl, hasked.trans hquestions, .inl ⟨_, _, rfl, hafter, ?_⟩⟩
    exact refreshed_kept (Store.kept_of_load hload) hsaved
  · rw [Run.bind_of_error hsave]
    rw [hall.files] at hw
    exact ⟨_, s₄, rfl, hquestions, .inr ⟨file, e, _, hstore, hw, rfl⟩⟩

/-! ### A file with a known comment and a new one -/

/-- The file has a known comment behind a new one. -/
def shelf : Files := ⟨.directory [("a.py", .file (Text.encode "# b\nx\n# a"))], .root⟩

def shelfRecord (id : Int) (content path : Text) (tags : List Text) (row : Int) : Record :=
  ⟨id, "python", content, [], path, .inline, tags, (row, row), (2, 3), []⟩

def shelved : Batch :=
  ⟨[("/z.py", [shelfRecord 0 "a" "z.py" [] 0]), ("/a.py", [shelfRecord 1 "a" "a.py" ["todo"] 0])],
    by decide⟩

def tagging : Classifier :=
  ⟨fun _ => [], fun rs => .ok (rs.map fun r => r.withTags ["note"]), fun b => .ok b⟩

/-- A workflow without a parser, on a store in memory. -/
def shelfWork : Workflow :=
  ⟨fun _ _ => .nothing, fun _ _ => .timedOut, { (default : Settings) with maxFileSize := 100 },
    .memory, some tagging⟩

def shelfSession : Session := { Session.start shelf with memory := shelved }

theorem tagging_relabels : tagging.Relabels := by
  intro rs
  refine ⟨_, rfl, ?_⟩
  rw [List.map_map]
  rfl

/-- What is extracted from the file. -/
def shelfFresh : List Record := [shelfRecord 0 "b" "a.py" [] 0, shelfRecord 0 "a" "a.py" [] 2]

set_option maxRecDepth 10000 in
theorem updateFile_refreshes_shelf :
    (shelfWork.store.load shelfSession).1 = .ok shelved ∧
    (shelfWork.extractFile (shelf.resolve ⟨false, ["a.py"]⟩) .root shelfSession).1 =
      .ok shelfFresh ∧
    (∀ c, shelfWork.classifier = some c → c.Relabels) ∧
    ∃ result s', shelfWork.updateFile ⟨false, ["a.py"]⟩ .root shelfSession = (.ok result, s') ∧
      s'.questions = [.file [shelfRecord 0 "b" "a.py" [] 0]] ∧
      shelved.Refreshed s'.memory "/a.py" shelfFresh := by
  have hclassifier : ∀ c, shelfWork.classifier = some c → c.Relabels := by
    intro c hc
    cases hc
    exact tagging_relabels
  obtain ⟨r, s', hrun, hquestions, hstored⟩ := @updateFile_refreshes shelfWork ⟨false, ["a.py"]⟩
    .root shelfSession shelved shelfFresh rfl rfl hclassifier
  refine ⟨rfl, rfl, hclassifier, ?_⟩
  rcases hstored with ⟨result, after, rfl, hload, hrefreshed⟩ | ⟨file, -, -, hstore, -⟩
  · cases hload
    exact ⟨result, s', hrun, hquestions, hrefreshed⟩
  · cases hstore

end Workflow

end Marginalia
