import Marginalia.Proofs.Enrichment
import Marginalia.Proofs.Merging

/-!
The update of a workspace and the update of one of its files. A file whose path is its own
resolution is stored by both with the same records under the same path, if the classifier treats
every record on its own. A file that is reached through a link is stored by the one under the path
of the link and by the other under the path to which the link leads.
-/

namespace Marginalia

/-! ## Records up to ids -/

namespace Record

variable {rs rs' ts ts' : List Record}

theorem SameButIds.append (h : SameButIds rs rs') (h' : SameButIds ts ts') :
    SameButIds (rs ++ ts) (rs' ++ ts') := by
  rw [SameButIds, List.map_append, List.map_append, h, h']

/-- What treats a record without looking at its id keeps records the same. -/
theorem SameButIds.map {f : Record → Record} (h : SameButIds rs rs')
    (hf : ∀ r id, f (r.withId id) = (f r).withId id) : SameButIds (rs.map f) (rs'.map f) := by
  have hmap : ∀ ts : List Record, (ts.map f).map (fun r => r.withId 0) =
      (ts.map fun r => r.withId 0).map f := by
    intro ts
    rw [List.map_map, List.map_map]
    exact List.map_congr_left fun r _ => (hf r 0).symm
  rw [SameButIds, hmap, hmap, h]

end Record

namespace Reconciliation

theorem separate_map_withId (old fresh : List Record) (id : Int) :
    separate old (fresh.map fun r => r.withId id) =
      ⟨(separate old fresh).preserved.map fun r => r.withId id,
        (separate old fresh).toReclassify.map fun r => r.withId id⟩ := by
  unfold separate
  simp only [List.filterMap_map, List.map_filterMap, List.filter_map, List.map_map, mk.injEq]
  constructor
  · apply List.filterMap_congr
    intro r _
    rw [Option.map_map]
    rfl
  · rfl

end Reconciliation

theorem Batch.sameButIds_against {fresh fresh' : List Record} (stored : Batch) (path : Text)
    (h : Record.SameButIds fresh fresh') :
    Record.SameButIds (stored.against path fresh).preserved (stored.against path fresh').preserved ∧
      Record.SameButIds (stored.against path fresh).toReclassify
        (stored.against path fresh').toReclassify := by
  have hparts := congrArg (Reconciliation.separate ((stored.get? path).getD [])) h
  rw [Reconciliation.separate_map_withId, Reconciliation.separate_map_withId,
    Reconciliation.mk.injEq] at hparts
  exact hparts

/-- What is saved of a file when `f` is what the classifier does with each record. -/
def Batch.treated (stored : Batch) (f : Record → Record) (path : Text) (fresh : List Record) :
    List Record :=
  (stored.against path fresh).preserved ++ (stored.against path fresh).toReclassify.map f

/-! ## The extraction of one file among many -/

namespace FileRecords

theorem exists_mem_numberFiles {path : Text} {records : List Record} {fs : List FileRecords}
    (h : (path, records) ∈ fs) (next : Nat) :
    ∃ n, (path, numberRecords n records) ∈ numberFiles next fs := by
  induction fs generalizing next with
  | nil => cases h
  | cons f fs ih =>
      rcases List.mem_cons.mp h with rfl | hrest
      · exact ⟨next, List.mem_cons_self⟩
      · obtain ⟨n, hn⟩ := ih hrest (next + f.2.length)
        exact ⟨n, List.mem_cons_of_mem _ hn⟩

theorem exists_mem_numberRecords {r : Record} {rs : List Record} (h : r ∈ rs) (next : Nat) :
    ∃ id, r.withId id ∈ numberRecords next rs := by
  induction rs generalizing next with
  | nil => cases h
  | cons own rs ih =>
      rcases List.mem_cons.mp h with rfl | hrest
      · exact ⟨next, List.mem_cons_self⟩
      · obtain ⟨id, hid⟩ := ih hrest (next + 1)
        exact ⟨id, List.mem_cons_of_mem _ hid⟩

end FileRecords

namespace Batch

variable {b : Batch}

theorem lookupFailure?_eq_none_of_subset {c : Batch} {dates : Dates}
    (h : lookupFailure? dates b = none) (hsub : ∀ l ∈ c.lookups, l ∈ b.lookups) :
    lookupFailure? dates c = none := by
  rw [lookupFailure?, List.findSome?_eq_none_iff] at h ⊢
  exact fun l hl => h l (hsub l hl)

end Batch

namespace Files

variable {files : Files} {grammar : Grammar} {settings : Settings} {root p : Path}
  {records : List Record}

theorem exists_read_of_extractFile {under : Option Path} {language : Option Text}
    (h : (files.extractFile grammar settings p under language).2 = .ok records) :
    ∃ content, files.tree.read (files.base.join p) = .ok content := by
  unfold extractFile at h
  split at h
  · cases h
  · rename_i source hsource
    obtain ⟨own, -, hsource⟩ := Sequence.bind_eq_ok.mp hsource
    split at hsource
    · rename_i content hread
      exact ⟨content, hread⟩
    · cases hsource
    · cases hsource

/-- The root of a walk that finds a file without links passes no link either. -/
theorem resolve_resolve_root (hnames : files.tree.WellNamed) (hp : p ∈ files.sources root)
    (hself : files.resolve p = p) {content : Bytes}
    (hread : files.tree.read (files.base.join p) = .ok content) :
    files.resolve (files.resolve root) = files.resolve root := by
  obtain ⟨names, rfl, -⟩ := FileTree.exists_under_of_mem_walk hnames hp
  have hjoin : files.base.join ((files.resolve root).under names) =
      (files.resolve root).under names := if_pos rfl
  rw [hjoin] at hread
  exact FileTree.resolve_eq_self_of_prefix hself hread rfl (List.prefix_append _ names)

/-- The extraction of a tree has the records of each source, with some ids. -/
theorem exists_mem_extractTree (hnames : files.tree.WellNamed) (hp : p ∈ files.sources root)
    (grammar : Grammar) (settings : Settings) :
    ∃ n, (p.toText, FileRecords.numberRecords n (files.recordsAmong grammar settings root p)) ∈
      (files.extractTree grammar settings root).2.files := by
  have hentry : (p.toText, files.recordsAmong grammar settings root p) ∈
      (files.sources root).map fun p => (p.toText, files.recordsAmong grammar settings root p) :=
    List.mem_map.mpr ⟨p, hp, rfl⟩
  rw [files_extractTree hnames]
  exact FileRecords.exists_mem_numberFiles hentry 0

theorem extractFile_resolved (h : files.resolve (files.resolve root) = files.resolve root) :
    files.extractFile grammar settings p (some (files.resolve root)) none =
      files.extractFile grammar settings p (some root) none := by
  simp only [extractFile, relativePath, h]

end Files

namespace Workflow

variable {w : Workflow} {root p : Path} {s : Session} {stored current : Batch}
  {records : List Record}

/-- The record with the date that the settings ask for. -/
def dated (w : Workflow) (path : Text) (r : Record) : Record :=
  if w.settings.enrichCommitDates then Batch.dated w.dates path r else r

theorem dated_withId (path : Text) (r : Record) (id : Int) :
    w.dated path (r.withId id) = (w.dated path r).withId id := by
  have hempty : (r.withId id).commitDate.isEmpty = r.commitDate.isEmpty := rfl
  have hline : (r.withId id).firstLine = r.firstLine := rfl
  unfold dated Batch.dated
  rw [hempty, hline]
  split
  · split
    · split <;> rfl
    · rfl
  · rfl

/-- If all dates of a batch can be looked up, so can those of a part of it. -/
theorem enriched_of_subset {b b' c : Batch} (h : w.enriched b = .ok b')
    (hsub : ∀ l ∈ c.lookups, l ∈ b.lookups) :
    w.enriched c = .ok (c.mapFiles fun path rs => rs.map (w.dated path)) := by
  unfold enriched dated at *
  split at h
  · rename_i hdates
    have hnone : Batch.lookupFailure? w.dates b = none := by
      unfold Batch.enrich at h
      cases hfailure : Batch.lookupFailure? w.dates b with
      | none => rfl
      | some f =>
          rw [hfailure] at h
          cases h
    simp only [hdates, if_true, Batch.enrich, Batch.lookupFailure?_eq_none_of_subset hnone hsub]
  · rename_i hdates
    simp only [hdates, if_false, Bool.false_eq_true, List.map_id']
    exact congrArg Except.ok (Batch.ext_files (List.map_id' c.files).symm)

theorem eq_of_enriched {b b' : Batch} (h : w.enriched b = .ok b') :
    b' = b.mapFiles fun path rs => rs.map (w.dated path) :=
  Except.ok.inj (h.symm.trans (enriched_of_subset h fun _ hl => hl))

/-- What the extraction of a tree gives for one of its sources. -/
theorem exists_get?_of_mem_sources (hnames : s.files.tree.WellNamed)
    (h : w.enriched (s.files.extractTree w.grammar w.settings root).2 = .ok current)
    (hp : p ∈ s.files.sources root) :
    ∃ fresh, current.get? p.toText = some fresh ∧ Record.SameButIds fresh
      ((s.files.recordsAmong w.grammar w.settings root p).map (w.dated p.toText)) := by
  obtain ⟨n, hn⟩ := Files.exists_mem_extractTree hnames hp w.grammar w.settings
  refine ⟨(FileRecords.numberRecords n
    (s.files.recordsAmong w.grammar w.settings root p)).map (w.dated p.toText), ?_, ?_⟩
  · rw [eq_of_enriched h, Batch.get?_eq_some_iff]
    exact List.mem_map_of_mem hn
  · rw [Record.SameButIds, List.map_map, List.map_map]
    refine FileRecords.map_numberRecords (fun r id => ?_) n _
    rw [Function.comp_apply, dated_withId]
    rfl

/-- What the extraction of one file gives, if that of the tree around it succeeds. -/
theorem extracted_of_mem_sources (hnames : s.files.tree.WellNamed)
    (h : w.enriched (s.files.extractTree w.grammar w.settings root).2 = .ok current)
    (hp : p ∈ s.files.sources root) (hself : s.files.resolve p = p)
    (hrecords : (s.files.extractFile w.grammar w.settings p (some root) none).2 = .ok records) :
    w.extracted s.files p root =
      .ok ((s.files.recordsAmong w.grammar w.settings root p).map (w.dated p.toText)) := by
  obtain ⟨content, hread⟩ := Files.exists_read_of_extractFile hrecords
  have hroot := Files.resolve_resolve_root hnames hp hself hread
  have hamong : s.files.recordsAmong w.grammar w.settings root p = records := by
    rw [Files.recordsAmong, Files.extractFile_resolved hroot, hrecords]
    rfl
  rw [hamong]
  -- The dates of the one file are looked up in the whole tree too, where none of them fails.
  have hsub : ∀ l ∈ (Batch.ofList [(p.toText, records)]).lookups,
      l ∈ (s.files.extractTree w.grammar w.settings root).2.lookups := by
    rintro ⟨path, line⟩ hl
    obtain ⟨rs, hrs, r, hr, hdate, hline⟩ := Batch.mem_lookups_iff.mp hl
    cases List.mem_singleton.mp hrs
    obtain ⟨n, hn⟩ := Files.exists_mem_extractTree hnames hp w.grammar w.settings
    rw [hamong] at hn
    obtain ⟨id, hid⟩ := FileRecords.exists_mem_numberRecords hr n
    exact Batch.mem_lookups_iff.mpr ⟨_, hn, _, hid, hdate, hline⟩
  refine Sequence.bind_eq_ok.mpr ⟨records, hrecords, ?_⟩
  refine Sequence.bind_eq_ok.mpr ⟨_, enriched_of_subset h hsub, ?_⟩
  rw [Batch.get?_mapFiles]
  have hget : (Batch.ofList [(p.toText, records)]).get? p.toText = some records :=
    Batch.get?_put_self
  rw [hget]
  rfl

end Workflow

/-! ## Classifiers that treat each record on its own -/

/-- Every record is answered by one that depends on it alone, but not on its id, and that differs
from it by its labels. -/
structure Classifier.TreatsEach (c : Classifier) (f : Record → Record) : Prop where
  unlabelled : ∀ r, (f r).unlabelled = r.unlabelled
  withId : ∀ r id, f (r.withId id) = (f r).withId id
  file : ∀ rs, (∀ r ∈ rs, r.Storable) → c.file rs = .ok (rs.map f)
  all : ∀ b : Batch, b.Storable → c.all b = .ok (b.mapFiles fun _ rs => rs.map f)

namespace Workflow

/-- The same of classification as a whole. -/
structure TreatsEach (w : Workflow) (f : Record → Record) : Prop where
  unlabelled : ∀ r, (f r).unlabelled = r.unlabelled
  withId : ∀ r id, f (r.withId id) = (f r).withId id
  classified : ∀ rs, (∀ r ∈ rs, r.Storable) → w.classified rs = .ok (rs.map f)
  answered : ∀ b : Batch, b.Storable → w.answered b = .ok (b.mapFiles fun _ rs => rs.map f)

variable {w : Workflow} {f : Record → Record} {root p : Path} {s : Session}
  {stored current : Batch} {path : Text} {records fresh : List Record}

theorem exists_treatsEach (h : ∀ c, w.classifier = some c → ∃ f, c.TreatsEach f) :
    ∃ f, w.TreatsEach f := by
  cases hc : w.classifier with
  | none =>
      refine ⟨id, fun _ => rfl, fun _ _ => rfl, ?_, ?_⟩
      · intro rs _
        rw [classified, hc, List.map_id]
      · intro b _
        rw [answered, hc]
        simp only [List.map_id]
        exact congrArg Except.ok (Batch.ext_files (List.map_id' b.files).symm)
  | some c =>
      obtain ⟨f, hf⟩ := h c hc
      refine ⟨f, hf.unlabelled, hf.withId, ?_, ?_⟩
      · intro rs hrs
        rw [classified, hc]
        cases rs with
        | nil => rfl
        | cons r rs => exact hf.file (r :: rs) hrs
      · intro b hb
        rw [answered, hc]
        dsimp only
        split
        · rename_i hempty
          refine congrArg Except.ok (Batch.ext_files ?_)
          change b.files = b.files.map fun e => (e.1, e.2.map f)
          rw [List.isEmpty_iff.mp hempty]
          rfl
        · exact hf.all b hb

theorem storable_map_of_unlabelled (h : ∀ r, (f r).unlabelled = r.unlabelled)
    (hrecords : ∀ r ∈ records, r.Storable) : ∀ r ∈ records.map f, r.Storable := by
  have hsame : (records.map f).map Record.unlabelled = records.map Record.unlabelled := by
    rw [List.map_map]
    exact List.map_congr_left fun r _ => h r
  exact Record.storable_of_map_unlabelled hsame hrecords

theorem answersValid_of_treatsEach (h : ∀ c, w.classifier = some c → ∃ f, c.TreatsEach f) :
    w.AnswersValid := by
  intro c hc
  obtain ⟨f, hf⟩ := h c hc
  constructor
  · intro rs answers hrs hanswers
    cases (hf.file rs hrs).symm.trans hanswers
    exact storable_map_of_unlabelled hf.unlabelled hrs
  · intro b answers hb hanswers
    cases (hf.all b hb).symm.trans hanswers
    exact Batch.All.mapFiles hb fun _ _ hrs => storable_map_of_unlabelled hf.unlabelled hrs

theorem TreatsEach.sameButIds_treated {fresh' : List Record} (h : w.TreatsEach f) (stored : Batch)
    (path : Text) (hfresh : Record.SameButIds fresh fresh') :
    Record.SameButIds (stored.treated f path fresh) (stored.treated f path fresh') := by
  obtain ⟨hknown, hnew⟩ := stored.sameButIds_against path hfresh
  exact hknown.append (hnew.map h.withId)

theorem reconciled_eq_treated (hfresh : current.get? path = some fresh) :
    stored.reconciled ((toClassify stored current).mapFiles fun _ rs => rs.map f) path fresh =
      stored.treated f path fresh := by
  unfold Batch.reconciled Batch.treated
  rw [Batch.get?_mapFiles]
  cases hget : (toClassify stored current).get? path with
  | some new =>
      obtain ⟨own, hown, rfl, -⟩ := get?_toClassify_eq_some_iff.mp hget
      cases hfresh.symm.trans hown
      rfl
  | none =>
      have hnothing : (stored.against path fresh).toReclassify = [] := by
        by_contra hne
        cases hget.symm.trans (get?_toClassify_eq_some_iff.mpr ⟨fresh, hfresh, rfl, hne⟩)
      rw [hnothing]
      rfl

end Workflow

/-! ## Both updates -/

namespace Workflow

variable {w : Workflow} {f : Record → Record} {root p path : Path} {s : Session}
  {stored current : Batch} {fresh : List Record}

theorem TreatsEach.updateFile_saves (hf : w.TreatsEach f)
    (hread : w.ReadsFile (s.files.resolve path) root s stored fresh) :
    ∃ asked, (w.updateFile path root).Saves w.store s asked fun _ own =>
      ∃ saved, own.get? (s.files.resolve path).toText = some saved ∧
        w.store.KeepsAs (stored.treated f (s.files.resolve path).toText fresh) saved := by
  have hnew := (Reconciliation.storable_separate
    ((stored.get? (s.files.resolve path).toText).getD [])
    fun r hr => (hread.wellFormed r hr).storable).2
  refine ⟨_, (Workflow.updateFile_saves w hread (hf.classified _ hnew)
    (storable_map_of_unlabelled hf.unlabelled hnew)).imp ?_⟩
  rintro result own ⟨-, rfl⟩
  exact Store.exists_get?_kept Batch.get?_put_self

theorem TreatsEach.updateWorkspace_saves (hf : w.TreatsEach f)
    (hread : w.ReadsWorkspace root s stored current) :
    ∃ asked, (w.updateWorkspace root).Saves w.store s asked fun _ after =>
      after.paths = current.paths ∧
      ∀ path fresh, current.get? path = some fresh → ∃ saved, after.get? path = some saved ∧
        w.store.KeepsAs (stored.treated f path fresh) saved := by
  have hnew := storable_toClassify stored hread.wellFormed
  refine ⟨_, (Workflow.updateWorkspace_saves hread (hf.answered _ hnew)
    (Batch.All.mapFiles hnew fun _ _ => storable_map_of_unlabelled hf.unlabelled)).imp ?_⟩
  rintro results after ⟨-, rfl⟩
  constructor
  · rw [Store.paths_kept, Batch.paths_numbered, Batch.paths_mapFiles]
  · intro path fresh hfresh
    obtain ⟨saved, hsaved, hkept⟩ := exists_get?_reconciled w.store stored
      ((toClassify stored current).mapFiles fun _ rs => rs.map f) hfresh
    rw [reconciled_eq_treated hfresh] at hkept
    exact ⟨saved, hsaved, hkept⟩

/-- The update of a workspace saves exactly the sources below its root, in the order of the walk. For
a source whose path is its own resolution, the update of that file alone saves the same records
under the same path; for a source that is reached through a link it saves under another path, and
leaves what is stored under the path of the link. -/
theorem updateFile_agrees (hnames : s.files.tree.WellNamed)
    (hsources : ∀ p ∈ s.files.sources root, ∃ records,
      (s.files.extractFile w.grammar w.settings p (some root) none).2 = .ok records)
    (hload : (w.store.load s).1 = .ok stored)
    (hcurrent : (w.extractTree root s).1 = .ok current)
    (hclassifier : ∀ c, w.classifier = some c → ∃ f, c.TreatsEach f) :
    ∃ asked, (w.updateWorkspace root).Saves w.store s asked fun _ after =>
      after.paths = (s.files.sources root).map Path.toText ∧
      ∀ p ∈ s.files.sources root,
        (s.files.resolve p = p → ∃ saved asked, after.get? p.toText = some saved ∧
          (w.updateFile p root).Saves w.store s asked fun _ own =>
            ∃ saved', own.get? p.toText = some saved' ∧ Record.SameButIds saved saved') ∧
        ((s.files.resolve p).toText ≠ p.toText → ∀ result s',
          w.updateFile p root s = (.ok result, s') → ∃ own, (w.store.load s').1 = .ok own ∧
            (s.files.resolve p).toText ∈ own.paths ∧
            (own.get? p.toText).map (List.map fun r => r.withId 0) =
              (stored.get? p.toText).map (List.map fun r => r.withId 0)) := by
  have hextracted := (w.extractTree_fst root s).symm.trans hcurrent
  obtain ⟨f, hf⟩ := exists_treatsEach hclassifier
  obtain ⟨asked, hworkspace⟩ := hf.updateWorkspace_saves ⟨hload, hextracted⟩
  refine ⟨asked, hworkspace.imp ?_⟩
  rintro results after ⟨hpaths, hfiles⟩
  refine ⟨?_, fun p hp => ⟨fun hself => ?_, fun hlinked result s' hrun => ?_⟩⟩
  · rw [hpaths, paths_of_enriched hextracted, Files.paths_extractTree hnames]
  · obtain ⟨fresh, hfresh, hsame⟩ := exists_get?_of_mem_sources hnames hextracted hp
    obtain ⟨saved, hsaved, hkept⟩ := hfiles p.toText fresh hfresh
    obtain ⟨records, hrecords⟩ := hsources p hp
    have hread : w.ReadsFile p root s stored _ :=
      ⟨hload, extracted_of_mem_sources hnames hextracted hp hself hrecords⟩
    rw [← hself] at hread
    obtain ⟨asked', hfile⟩ := hf.updateFile_saves hread
    refine ⟨saved, asked', hsaved, hfile.imp ?_⟩
    rintro result own ⟨saved', hsaved', hkept'⟩
    rw [hself] at hsaved' hkept'
    exact ⟨saved', hsaved', hkept.sameButIds hkept' (hf.sameButIds_treated stored _ hsame)⟩
  · obtain ⟨before, fresh, answers, hread, -, -, hown⟩ :=
      load_of_updateFile w (answersValid_of_treatsEach hclassifier) hrun
    cases hload.symm.trans hread.load
    refine ⟨_, hown, ?_, ?_⟩
    · rw [Store.paths_kept, Batch.paths_numbered]
      exact FileRecords.mem_map_fst_put.mpr (.inl rfl)
    · exact Store.map_get?_kept_put_of_ne (fun _ _ => rfl) (Store.kept_of_load hload) hlinked.symm

/-! ### A file and a link to it -/

def annex : Files :=
  ⟨.directory [("a.st", .file (Text.encode "\"a\"")), ("l.st", .link "a.st")], .root⟩

theorem wellNamed_annex : annex.tree.WellNamed := by
  apply FileTree.wellNamed_directory (by decide) (by decide)
  simp only [List.forall_mem_cons]
  exact ⟨FileTree.wellNamed_leaf nofun, FileTree.wellNamed_leaf nofun, List.forall_mem_nil _⟩

def annexFile : Path := ⟨true, ["a.st"]⟩

def annexLink : Path := ⟨true, ["l.st"]⟩

def annexRecord (id : Int) (path : Text) (tags : List Text) : Record :=
  ⟨id, "pharo", "a", [], path, .inline, tags, (0, 0), (1, 2), []⟩

def noting : Classifier :=
  ⟨fun _ => [], fun rs => .ok (rs.map fun r => r.withTags ["note"]),
    fun b => .ok (b.mapFiles fun _ rs => rs.map fun r => r.withTags ["note"])⟩

theorem noting_treatsEach : noting.TreatsEach fun r => r.withTags ["note"] :=
  ⟨fun _ => rfl, fun _ _ => rfl, fun _ _ => rfl, fun _ _ => rfl⟩

def annexWork : Workflow :=
  ⟨fun _ _ => .nothing, fun _ _ => .timedOut, { (default : Settings) with maxFileSize := 100 },
    .memory, some noting⟩

def annexCurrent : Batch :=
  ⟨[("/a.st", [annexRecord 0 "a.st" []]), ("/l.st", [annexRecord 1 "a.st" []])], by decide⟩

theorem sources_annex : annex.sources .root = [annexFile, annexLink] := by decide

set_option maxRecDepth 10000 in
theorem extracted_annex : ∀ p ∈ annex.sources .root, ∃ records,
    (annex.extractFile annexWork.grammar annexWork.settings p (some .root) none).2 =
      .ok records := by
  rw [sources_annex]
  simp only [List.forall_mem_cons]
  exact ⟨⟨_, rfl⟩, ⟨_, rfl⟩, List.forall_mem_nil _⟩

set_option maxRecDepth 10000 in
theorem updateFile_agrees_annex :
    annex.tree.WellNamed ∧ annex.sources .root = [annexFile, annexLink] ∧
    (annexWork.extractTree .root (.start annex)).1 = .ok annexCurrent ∧
    (∀ c, annexWork.classifier = some c → ∃ f, c.TreatsEach f) ∧
    ∃ results s', annexWork.updateWorkspace .root (.start annex) = (.ok results, s') ∧
      s'.memory.paths = ["/a.st", "/l.st"] ∧
      ∃ result own saved saved',
        annexWork.updateFile annexFile .root (.start annex) = (.ok result, own) ∧
        s'.memory.get? "/a.st" = some saved ∧ own.memory.get? "/a.st" = some saved' ∧
        Record.SameButIds saved saved' := by
  have hclassifier : ∀ c, annexWork.classifier = some c → ∃ f, c.TreatsEach f := by
    rintro c ⟨⟩
    exact ⟨_, noting_treatsEach⟩
  obtain ⟨asked, r, s', hrun, -, hend⟩ := @updateFile_agrees annexWork .root (.start annex) .empty
    annexCurrent wellNamed_annex extracted_annex rfl rfl hclassifier
  refine ⟨wellNamed_annex, sources_annex, rfl, hclassifier, ?_⟩
  rcases hend with ⟨results, after, rfl, hload, hpaths, hfiles⟩ | ⟨file, -, -, hstore, -⟩
  · cases hload
    have hmem : annexFile ∈ annex.sources .root := by decide
    obtain ⟨saved, asked', hsaved, r', own, hown, -, hfile⟩ := (hfiles annexFile hmem).1 rfl
    rcases hfile with ⟨result, after, rfl, hload, saved', hsaved', hsame⟩ | ⟨file, -, -, hstore, -⟩
    · cases hload
      exact ⟨results, s', hrun, hpaths, result, own, saved, saved', hown, hsaved, hsaved', hsame⟩
    · cases hstore
  · cases hstore

set_option maxRecDepth 10000 in
/-- The update of a link saves nothing under its path, and that of the workspace does. -/
theorem annex_link :
    annexLink ∈ annex.sources .root ∧
    (annexWork.updateWorkspace .root (.start annex)).2.memory.get? annexLink.toText =
      some [annexRecord 1 "a.st" ["note"]] ∧
    (annexWork.updateFile annexLink .root (.start annex)).2.memory.get? annexLink.toText = none ∧
    (annexWork.updateFile annexLink .root (.start annex)).2.memory.get? annexFile.toText =
      some [annexRecord 0 "a.st" ["note"]] := by
  exact ⟨by decide, rfl, rfl, rfl⟩

end Workflow

end Marginalia
