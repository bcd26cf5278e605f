import Marginalia.Proofs.Outcomes
import Marginalia.Proofs.Walks

/-!
Updates of a whole workspace. What is stored afterwards are the sources below the root, in the order
of the walk: of each file what was known of it, then the answers about it, or what there was to
classify where there is no answer. A file that was not sent is stored as it was known exactly if
the answers have no records for it.
-/

namespace Marginalia

theorem Record.sameButIds_append_iff {known more saved : List Record}
    (h : SameButIds saved (known ++ more)) : SameButIds saved known ↔ more = [] := by
  have hlength := congrArg List.length h
  simp only [List.length_map, List.length_append] at hlength
  constructor
  · intro hknown
    have hlength' := congrArg List.length hknown
    simp only [List.length_map] at hlength'
    exact List.length_eq_zero_iff.mp (by omega)
  · rintro rfl
    rw [List.append_nil] at h
    exact h

/-- What is saved of a file: this depends on whether it was sent, and whether it was answered. -/
structure Batch.SettledAs (stored sent answers : Batch) (path : Text) (fresh saved : List Record) :
    Prop where
  unsent : sent.get? path = none →
    Record.SameButIds saved
      ((stored.against path fresh).preserved ++ (answers.get? path).getD []) ∧
    (Record.SameButIds saved (stored.against path fresh).preserved ↔
      (answers.get? path).getD [] = [])
  unanswered : ∀ new, sent.get? path = some new → answers.get? path = none →
    Record.SameButIds saved ((stored.against path fresh).preserved ++ new)
  answered : ∀ new own, sent.get? path = some new → answers.get? path = some own →
    Record.SameButIds saved ((stored.against path fresh).preserved ++ own)

namespace Workflow

variable {w : Workflow} {root : Path} {s : Session} {stored current answers : Batch} {path : Text}
  {fresh saved : List Record}

theorem paths_of_enriched {b b' : Batch} (h : w.enriched b = .ok b') : b'.paths = b.paths := by
  unfold enriched at h
  split at h
  · rw [Batch.eq_of_enrich h]
    exact Batch.paths_mapFiles _
  · cases h
    rfl

/-- Everything that is saved of a workspace is kept as it is, if this is true of the answers. -/
theorem keeps_reconciled (hread : w.ReadsWorkspace root s stored current)
    (hanswers : answers.All w.store.Keeps) :
    (current.mapFiles (stored.reconciled answers)).All w.store.Keeps := by
  refine all_reconciled hanswers fun f hf => ⟨?_, ?_⟩
  · exact Store.keeps_preserved ((Store.keeps_of_load hread.load).get? f.1) (hread.wellFormed f hf)
  · intro r hr
    rw [Batch.against, Reconciliation.toReclassify_separate] at hr
    obtain ⟨own, hown, rfl⟩ := List.mem_map.mp hr
    have hfresh := hread.wellFormed f hf own (List.mem_of_mem_filter hown)
    exact Store.keeps_of_wellFormed hfresh.withTags_nil

/-- The list that is saved, told by what was sent and what was answered. -/
theorem settledAs_of_reconciled (hfresh : current.get? path = some fresh)
    (hsaved : Record.SameButIds saved (stored.reconciled answers path fresh)) :
    stored.SettledAs (toClassify stored current) answers path fresh saved := by
  constructor
  · intro hunsent
    have hnothing : (stored.against path fresh).toReclassify = [] := by
      by_contra hne
      have hsent := get?_toClassify_eq_some_iff.mpr ⟨fresh, hfresh, rfl, hne⟩
      cases hunsent.symm.trans hsent
    rw [Batch.reconciled, hnothing] at hsaved
    exact ⟨hsaved, Record.sameButIds_append_iff hsaved⟩
  · intro new hsent hnone
    obtain ⟨own, hown, rfl, -⟩ := get?_toClassify_eq_some_iff.mp hsent
    cases hfresh.symm.trans hown
    rw [Batch.reconciled, hnone] at hsaved
    exact hsaved
  · intro new own _ hown
    rw [Batch.reconciled, hown] at hsaved
    exact hsaved

/-- What an update of a workspace answers is what it saves, but for ids. -/
theorem forall₂_merging (stored current answers : Batch) :
    List.Forall₂ (fun r f => r.1 = f.1 ∧ Record.SameButIds r.2.merged f.2)
      (merging stored current answers)
      (current.mapFiles (stored.reconciled answers)).numbered.files := by
  -- Without ids both are the same list, and numbering changes ids alone.
  have hfiles : (merging stored current answers).map
        (fun r => (r.1, r.2.merged.map fun r => r.withId 0)) =
      (current.mapFiles (stored.reconciled answers)).numbered.files.map
        fun f => (f.1, f.2.map fun r => r.withId 0) := by
    have hmerged := congrArg (List.map fun f : FileRecords => (f.1, f.2.map fun r => r.withId 0))
      (map_merged_merging stored current answers)
    rw [List.map_map] at hmerged
    exact hmerged.trans (FileRecords.map_numberFiles (fun _ _ => rfl) 0 _).symm
  refine (Sequence.forall₂_of_map_eq hfiles).imp fun r f hsame => ?_
  obtain ⟨-, -, hsame⟩ := hsame
  exact ⟨congrArg Prod.fst hsame, congrArg Prod.snd hsame⟩

/-- An update of a workspace stores exactly the sources below the root, in the order of the walk.
Each of them is stored by whether it was sent to the classifier and whether there is an answer; the
answers about a file that was not sent are stored with it. -/
theorem updateWorkspace_reconciles (hnames : s.files.tree.WellNamed)
    (hload : (w.store.load s).1 = .ok stored)
    (hcurrent : (w.extractTree root s).1 = .ok current)
    (hanswers : w.answered (toClassify stored current) = .ok answers)
    (hvalid : answers.WellFormed) :
    (w.updateWorkspace root).Saves w.store s (w.questionsAbout (toClassify stored current))
      fun results after =>
        after.paths = (s.files.sources root).map Path.toText ∧
        List.Forall₂ (fun r f => r.1 = f.1 ∧ Record.SameButIds r.2.merged f.2) results
          after.files ∧
        ∀ path fresh, current.get? path = some fresh → ∃ saved, after.get? path = some saved ∧
          stored.SettledAs (toClassify stored current) answers path fresh saved := by
  have hextracted := (w.extractTree_fst root s).symm.trans hcurrent
  have hread : w.ReadsWorkspace root s stored current := ⟨hload, hextracted⟩
  have hkeeps := keeps_reconciled hread fun f hf r hr => Store.keeps_of_wellFormed (hvalid f hf r hr)
  refine (updateWorkspace_saves hread hanswers hvalid.storable).imp ?_
  rintro results after ⟨rfl, rfl⟩
  refine ⟨?_, ?_, ?_⟩
  · rw [Store.paths_kept, Batch.paths_numbered, Batch.paths_mapFiles, paths_of_enriched hextracted,
      Files.paths_extractTree hnames]
  · rw [Store.kept_numbered hkeeps]
    exact forall₂_merging stored current answers
  · intro path fresh hfresh
    obtain ⟨saved, hsaved, hkept⟩ := exists_get?_reconciled w.store stored answers hfresh
    have hmem : (path, stored.reconciled answers path fresh) ∈
        (current.mapFiles (stored.reconciled answers)).files :=
      List.mem_map.mpr ⟨(path, fresh), Batch.get?_eq_some_iff.mp hfresh, rfl⟩
    exact ⟨saved, hsaved, settledAs_of_reconciled hfresh (hkept.of_keeps (hkeeps _ hmem))⟩

/-! ### Three files, one of which is known -/

def attic : Files :=
  ⟨.directory [("c.st", .file (Text.encode "\"c\"")), ("a.st", .file (Text.encode "\"a\"")),
    ("b.st", .file (Text.encode "\"b\""))], .root⟩

theorem wellNamed_attic : attic.tree.WellNamed := by
  apply FileTree.wellNamed_directory (by decide) (by decide)
  simp only [List.forall_mem_cons]
  exact ⟨FileTree.wellNamed_leaf nofun, FileTree.wellNamed_leaf nofun,
    FileTree.wellNamed_leaf nofun, List.forall_mem_nil _⟩

def atticRecord (id : Int) (content path : Text) (tags : List Text) : Record :=
  ⟨id, "pharo", content, [], path, .inline, tags, (0, 0), (1, 2), []⟩

/-- Of the files only the first one is known, and another one that is gone. -/
def atticStored : Batch :=
  ⟨[("/z.st", [atticRecord 0 "z" "z.st" []]), ("/a.st", [atticRecord 1 "a" "a.st" ["kept"]])],
    by decide⟩

def atticCurrent : Batch :=
  ⟨[("/a.st", [atticRecord 0 "a" "a.st" []]), ("/b.st", [atticRecord 1 "b" "b.st" []]),
    ("/c.st", [atticRecord 2 "c" "c.st" []])], by decide⟩

def atticSession : Session := { Session.start attic with memory := atticStored }

/-- A workflow on a store in memory with a classifier that always gives this answer. -/
def atticWork (answers : Batch) : Workflow :=
  ⟨fun _ _ => .nothing, fun _ _ => .timedOut, { (default : Settings) with maxFileSize := 100 },
    .memory, some ⟨fun _ => [], .ok, fun _ => .ok answers⟩⟩

/-- The second file is answered, and the third one is not. -/
def atticAnswers : Batch := ⟨[("/b.st", [atticRecord 7 "b" "b.st" ["note"]])], by decide⟩

/-- The first file is answered, about which nothing was asked. -/
def atticUnasked : Batch := ⟨[("/a.st", [atticRecord 7 "x" "a.st" ["note"]])], by decide⟩

theorem wellFormed_atticAnswers : atticAnswers.WellFormed :=
  List.forall_mem_singleton.mpr (List.forall_mem_singleton.mpr
    ⟨by decide, by decide, by decide, by decide, by decide⟩)

set_option maxRecDepth 10000 in
theorem updateWorkspace_reconciles_attic :
    (attic.tree.WellNamed ∧ (Store.memory.load atticSession).1 = .ok atticStored ∧
      ((atticWork atticAnswers).extractTree .root atticSession).1 = .ok atticCurrent ∧
      (atticWork atticAnswers).answered (toClassify atticStored atticCurrent) = .ok atticAnswers ∧
      atticAnswers.WellFormed) ∧
    ∃ results s', (atticWork atticAnswers).updateWorkspace .root atticSession = (.ok results, s') ∧
      s'.memory.paths = ["/a.st", "/b.st", "/c.st"] ∧
      (∃ saved, s'.memory.get? "/a.st" = some saved ∧
        Record.SameButIds saved [atticRecord 0 "a" "a.st" ["kept"]]) ∧
      (∃ saved, s'.memory.get? "/b.st" = some saved ∧
        Record.SameButIds saved [atticRecord 7 "b" "b.st" ["note"]]) ∧
      ∃ saved, s'.memory.get? "/c.st" = some saved ∧
        Record.SameButIds saved [atticRecord 2 "c" "c.st" []] := by
  obtain ⟨r, s', hrun, -, hend⟩ := @updateWorkspace_reconciles (atticWork atticAnswers) .root
    atticSession atticStored atticCurrent atticAnswers wellNamed_attic rfl rfl rfl
    wellFormed_atticAnswers
  refine ⟨⟨wellNamed_attic, rfl, rfl, rfl, wellFormed_atticAnswers⟩, ?_⟩
  rcases hend with ⟨results, after, rfl, hload, hpaths, -, hfiles⟩ | ⟨file, -, -, hstore, -⟩
  · cases hload
    obtain ⟨first, hfirst, hknown⟩ := hfiles "/a.st" [atticRecord 0 "a" "a.st" []] rfl
    obtain ⟨second, hsecond, hanswered⟩ := hfiles "/b.st" [atticRecord 1 "b" "b.st" []] rfl
    obtain ⟨third, hthird, hunanswered⟩ := hfiles "/c.st" [atticRecord 2 "c" "c.st" []] rfl
    exact ⟨results, s', hrun, hpaths, ⟨first, hfirst, (hknown.unsent rfl).2.mpr rfl⟩,
      ⟨second, hsecond, hanswered.answered _ _ rfl rfl⟩,
      ⟨third, hthird, hunanswered.unanswered _ rfl rfl⟩⟩
  · cases hstore

set_option maxRecDepth 10000 in
/-- A file about which nothing was asked is stored with the answer about it all the same. -/
theorem attic_unasked :
    (Store.memory.load atticSession).1 = .ok atticStored ∧
    ((atticWork atticUnasked).extractTree .root atticSession).1 = .ok atticCurrent ∧
    (atticWork atticUnasked).answered (toClassify atticStored atticCurrent) = .ok atticUnasked ∧
    (atticStored.against "/a.st" [atticRecord 0 "a" "a.st" []]).toReclassify = [] ∧
    ∃ saved, ((atticWork atticUnasked).updateWorkspace .root atticSession).2.memory.get? "/a.st" =
        some saved ∧
      ¬ Record.SameButIds saved
        (atticStored.against "/a.st" [atticRecord 0 "a" "a.st" []]).preserved := by
  refine ⟨rfl, rfl, rfl, by decide, _, rfl, ?_⟩
  exact fun h => absurd (congrArg List.length h) (by decide)

end Workflow

end Marginalia
