import Marginalia.Proofs.Labels
import Marginalia.Proofs.Sessions

/-!
Repeated updates of a file that stays as it is. After the first one everything in the file is known,
and after the second one the store does not change any more: records of equal content have equal
labels then, and stand in the order of the file.
-/

namespace Marginalia

/-! ## Numbers -/

namespace FileRecords

theorem length_numberRecords (next : Nat) (rs : List Record) :
    (numberRecords next rs).length = rs.length := by
  have h := congrArg List.length (map_id_numberRecords next rs)
  rw [List.length_map, List.length_map, List.length_range'] at h
  exact h

theorem numberRecords_numberRecords (next n : Nat) (rs : List Record) :
    numberRecords next (numberRecords n rs) = numberRecords next rs := by
  induction rs generalizing next n with
  | nil => rfl
  | cons r rs ih => rw [numberRecords, numberRecords, numberRecords, ih]; rfl

theorem numberFiles_numberFiles (next n : Nat) (fs : List FileRecords) :
    numberFiles next (numberFiles n fs) = numberFiles next fs := by
  induction fs generalizing next n with
  | nil => rfl
  | cons f fs ih =>
      rw [numberFiles, numberFiles, numberFiles, ih, numberRecords_numberRecords,
        length_numberRecords]

/-- Records that are put a second time change nothing but the numbers. -/
theorem numberFiles_put_numberFiles (next n : Nat) (path : Text) (records : List Record)
    (fs : List FileRecords) :
    numberFiles next (put path records (numberFiles n (put path records fs))) =
      numberFiles next (put path records fs) := by
  -- The records put stand at their own numbers, and those behind them depend on how many they are.
  induction fs generalizing next n with
  | nil => simp only [put, numberFiles, if_true]
  | cons f fs ih =>
      by_cases hf : f.1 = path
      · simp only [put, hf, if_true, numberFiles, numberFiles_numberFiles]
      · simp only [put, hf, if_false, numberFiles, ih, numberRecords_numberRecords,
          length_numberRecords]

end FileRecords

theorem Batch.numbered_put_numbered (b : Batch) (path : Text) (records : List Record) :
    ((b.put path records).numbered.put path records).numbered = (b.put path records).numbered :=
  ext_files (FileRecords.numberFiles_put_numberFiles 0 0 path records b.files)

/-! ## Stored files of which everything is known -/

namespace Batch

variable {b : Batch} {key : Text} {fresh : List Record}

/-- All contents of the fresh records are stored under the path. -/
def Knows (b : Batch) (key : Text) (fresh : List Record) : Prop :=
  ∀ r ∈ fresh, r.content ∈ ((b.get? key).getD []).map Record.content

/-- What an update of the file stores once everything in it is known. -/
def settled (b : Batch) (key : Text) (fresh : List Record) : Batch :=
  (b.put key (b.against key fresh).preserved).numbered

theorem Knows.toReclassify (h : b.Knows key fresh) : (b.against key fresh).toReclassify = [] :=
  Reconciliation.toReclassify_eq_nil_iff.mpr h

theorem exists_get?_settled (b : Batch) (key : Text) (fresh : List Record) :
    ∃ saved, (b.settled key fresh).get? key = some saved ∧
      Record.SameButIds saved (b.against key fresh).preserved := by
  have hput : (b.put key (b.against key fresh).preserved).get? key =
      some (b.against key fresh).preserved := get?_put_self
  have hmap : ((b.settled key fresh).get? key).map (List.map fun r => r.withId 0) = _ :=
    map_get?_numbered fun _ _ => rfl
  rw [hput] at hmap
  exact Option.map_eq_some_iff.mp hmap

theorem Knows.preserved_settled (h : b.Knows key fresh) :
    ((b.settled key fresh).against key fresh).preserved = (b.against key fresh).preserved := by
  obtain ⟨saved, hsaved, hsame⟩ := b.exists_get?_settled key fresh
  rw [against, hsaved]
  exact Reconciliation.preserved_preserved h hsame

theorem Knows.settled_settled (h : b.Knows key fresh) :
    (b.settled key fresh).settled key fresh = b.settled key fresh := by
  rw [settled, h.preserved_settled]
  exact numbered_put_numbered b key _

theorem Knows.settled (h : b.Knows key fresh) : (b.settled key fresh).Knows key fresh := by
  obtain ⟨saved, hsaved, hsame⟩ := b.exists_get?_settled key fresh
  intro r hr
  obtain ⟨label, hlabel⟩ := Reconciliation.exists_labels?_iff.mpr (h r hr)
  rw [hsaved, Option.getD_some, ← Reconciliation.exists_labels?_iff,
    Reconciliation.labels?_of_sameButIds hsame]
  exact ⟨label, Reconciliation.labels?_preserved (List.mem_map_of_mem hr) hlabel⟩

end Batch

/-! ## Repeated updates -/

/-- Every record that the classifier is asked about is answered by one with its content. -/
def Classifier.AnswersEach (c : Classifier) : Prop :=
  ∀ rs answers, c.file rs = .ok answers → ∀ r ∈ rs, r.content ∈ answers.map Record.content

namespace Workflow

variable {w : Workflow} {path file root : Path} {s t : Session} {stored b : Batch}
  {fresh answers : List Record}

theorem contents_of_classified (hc : ∀ c, w.classifier = some c → c.AnswersEach)
    {records : List Record} (h : w.classified records = .ok answers) :
    ∀ r ∈ records, r.content ∈ answers.map Record.content := by
  unfold classified at h
  split at h
  · rename_i c hclassifier
    split at h
    · cases h
      exact fun r hr => List.mem_map_of_mem hr
    · exact hc c hclassifier records answers h
  · cases h
    exact fun r hr => List.mem_map_of_mem hr

/-- After an update everything in the file is known. -/
theorem knows_of_classified (hc : ∀ c, w.classifier = some c → c.AnswersEach) {key : Text}
    (h : w.classified (stored.against key fresh).toReclassify = .ok answers) :
    (w.store.kept (stored.put key
      ((stored.against key fresh).preserved ++ answers)).numbered).Knows key fresh := by
  have hkept : ((w.store.kept (stored.put key
      ((stored.against key fresh).preserved ++ answers)).numbered).get? key).map
        (List.map Record.content) =
      some (((stored.against key fresh).preserved ++ answers).map
        fun r => (w.store.tidy r).content) := Store.map_get?_kept_put_self fun _ _ => rfl
  obtain ⟨saved, hsaved, hcontents⟩ := Option.map_eq_some_iff.mp hkept
  have htidy : ∀ r, (w.store.tidy r).content = r.content := by
    cases w.store <;> exact fun _ => rfl
  intro r hr
  rw [hsaved, Option.getD_some, hcontents]
  simp only [htidy, List.map_append, List.mem_append]
  by_cases hold : r.content ∈ ((stored.get? key).getD []).map Record.content
  · left
    obtain ⟨label, hlabel⟩ := Reconciliation.exists_labels?_iff.mpr hold
    rw [← Reconciliation.exists_labels?_iff]
    exact ⟨label, Reconciliation.labels?_preserved (List.mem_map_of_mem hr) hlabel⟩
  · right
    have hnew : r.withTags [] ∈ (stored.against key fresh).toReclassify := by
      rw [Batch.against, Reconciliation.toReclassify_separate]
      exact List.mem_map_of_mem (List.mem_filter.mpr ⟨hr, by simpa using hold⟩)
    exact contents_of_classified hc h (r.withTags []) hnew

theorem updateFile_settles (hread : w.ReadsFile file root t b fresh)
    (hfile : t.files.resolve path = file) (hknows : b.Knows file.toText fresh) :
    (w.updateFile path root).Saves w.store t []
      fun _ after => after = b.settled file.toText fresh := by
  subst hfile
  have hnothing := hknows.toReclassify
  have hanswers : w.classified (b.against (t.files.resolve path).toText fresh).toReclassify =
      .ok [] := by
    rw [hnothing, classified]
    cases w.classifier <;> rfl
  have hsaves := updateFile_saves w hread hanswers (fun _ => nofun)
  have hasked : w.questionsOn (b.against (t.files.resolve path).toText fresh).toReclassify = [] := by
    rw [hnothing, questionsOn, if_neg fun h => h.2 rfl]
  rw [hasked] at hsaves
  refine hsaves.imp ?_
  rintro result after ⟨-, rfl⟩
  have hkeeps : (b.put (t.files.resolve path).toText
      (b.against (t.files.resolve path).toText fresh).preserved).All w.store.Keeps :=
    (Store.keeps_of_load hread.load).put (Store.keeps_preserved
      ((Store.keeps_of_load hread.load).get? _) hread.wellFormed)
  rw [List.append_nil, Store.kept_numbered hkeeps]
  rfl

/-- What the store holds after a number of updates: what the first one has left, and then always
what a second one makes of it. -/
def heldAfter (b : Batch) (key : Text) (fresh : List Record) : Nat → Batch
  | 0 => b
  | _ + 1 => b.settled key fresh

theorem updateFile_settles_again {n : Nat}
    (hload : (w.store.load t).1 = .ok (heldAfter b file.toText fresh n))
    (hknows : b.Knows file.toText fresh) (hfile : t.files.resolve path = file)
    (hfresh : w.extracted t.files file root = .ok fresh) :
    (w.updateFile path root).Saves w.store t []
      fun _ after => after = b.settled file.toText fresh := by
  cases n with
  | zero => exact updateFile_settles ⟨hload, hfresh⟩ hfile hknows
  | succ n =>
      rw [heldAfter] at hload
      have hagain := updateFile_settles ⟨hload, hfresh⟩ hfile hknows.settled
      rw [hknows.settled_settled] at hagain
      exact hagain

/-- The sessions that come of one by further updates of a file whose extraction stays the same, with
the number of those that have succeeded. In between, the files around the store may change. -/
inductive UpdatedAgain (w : Workflow) (file root : Path) (fresh : List Record) (s : Session) :
    Nat → Session → Prop where
  | start : UpdatedAgain w file root fresh s 0 s
  | saved {n : Nat} {t t' : Session} {path : Path} {result : Reconciliation} :
      UpdatedAgain w file root fresh s n t → t.files.resolve path = file →
      w.extracted t.files file root = .ok fresh → w.updateFile path root t = (.ok result, t') →
      UpdatedAgain w file root fresh s (n + 1) t'
  | failed {n : Nat} {t t' : Session} {path : Path} {f : Failure} :
      UpdatedAgain w file root fresh s n t → t.files.resolve path = file →
      w.extracted t.files file root = .ok fresh → w.updateFile path root t = (.error f, t') →
      UpdatedAgain w file root fresh s n t'
  | world {n : Nat} {t t' : Session} :
      UpdatedAgain w file root fresh s n t → w.store.SameIn t t' → t'.questions = t.questions →
      UpdatedAgain w file root fresh s n t'

/-- What further updates keep. -/
theorem UpdatedAgain.holds {n : Nat} (h : w.UpdatedAgain file root fresh s n t)
    (hload : (w.store.load s).1 = .ok b) (hknows : b.Knows file.toText fresh) :
    t.questions = s.questions ∧ (w.store.load t).1 = .ok (heldAfter b file.toText fresh n) := by
  -- Everything is known from the start, so that no step asks, and the count alone tells what is held.
  induction h with
  | start => exact ⟨rfl, hload⟩
  | @saved n t t' path result _ hfile hfresh hrun ih =>
      obtain ⟨hasked, hend⟩ := (updateFile_settles_again ih.2 hknows hfile hfresh).of_eq hrun
      rw [List.append_nil] at hasked
      rcases hend with ⟨_, after, -, hload, rfl⟩ | ⟨f, ⟨⟩, -⟩
      exact ⟨hasked.trans ih.1, hload⟩
  | @failed n t t' path f _ hfile hfresh hrun ih =>
      obtain ⟨hasked, hend⟩ := (updateFile_settles_again ih.2 hknows hfile hfresh).of_eq hrun
      rw [List.append_nil] at hasked
      rcases hend with ⟨_, _, ⟨⟩, -⟩ | ⟨_, -, hsame⟩
      exact ⟨hasked.trans ih.1, hsame.load_eq.trans ih.2⟩
  | world _ hsame hasked ih => exact ⟨hasked.trans ih.1, hsame.load_eq.trans ih.2⟩

/-- After an update that has succeeded, no further update of the file asks anything as long as its
extraction stays the same, and from the second one on they all store one and the same batch. -/
theorem updateFile_converges {result : Reconciliation} {first : Session} (hw : w.AnswersValid)
    (hclassifier : ∀ c, w.classifier = some c → c.AnswersEach)
    (hfresh : w.extracted s.files (s.files.resolve path) root = .ok fresh)
    (hrun : w.updateFile path root s = (.ok result, first)) :
    ∃ settled, ∀ n t, w.UpdatedAgain (s.files.resolve path) root fresh first n t →
      t.questions = first.questions ∧
      (0 < n → (w.store.load t).1 = .ok settled) ∧
      ∀ path', t.files.resolve path' = s.files.resolve path →
        w.extracted t.files (s.files.resolve path) root = .ok fresh →
        (w.updateFile path' root).Saves w.store t [] fun _ after => after = settled := by
  obtain ⟨stored, fresh', answers, hread, hanswers, -, hload⟩ := load_of_updateFile w hw hrun
  cases hread.extracted.symm.trans hfresh
  obtain ⟨b, hb, hknows⟩ : ∃ b, (w.store.load first).1 = .ok b ∧
      b.Knows (s.files.resolve path).toText fresh :=
    ⟨_, hload, knows_of_classified hclassifier hanswers⟩
  refine ⟨b.settled (s.files.resolve path).toText fresh, fun n t ht => ?_⟩
  obtain ⟨hasked, hheld⟩ := ht.holds hb hknows
  refine ⟨hasked, fun hn => ?_, fun path' hfile hsame =>
    updateFile_settles_again hheld hknows hfile hsame⟩
  obtain ⟨n, rfl⟩ := Nat.exists_eq_succ_of_ne_zero hn.ne'
  exact hheld

/-! ### A known comment behind a new one -/

theorem shelfWork_answersEach : ∀ c, shelfWork.classifier = some c → c.AnswersEach := by
  rintro c ⟨⟩ rs answers ⟨⟩ r hr
  rw [List.map_map]
  exact List.mem_map_of_mem (f := fun r : Record => r.content) hr

/-- The session after the second update, in which the comments stand in the order of the file. -/
def shelfSettled : Session :=
  (shelfWork.updateFile ⟨false, ["a.py"]⟩ .root Reached.shelfUpdated).2

set_option maxRecDepth 10000 in
theorem updateFile_converges_shelf :
    shelfWork.AnswersValid ∧ (∀ c, shelfWork.classifier = some c → c.AnswersEach) ∧
    shelfWork.extracted shelf (shelf.resolve ⟨false, ["a.py"]⟩) .root = .ok shelfFresh ∧
    (∃ result, shelfWork.updateFile ⟨false, ["a.py"]⟩ .root shelfSession =
      (.ok result, Reached.shelfUpdated)) ∧
    shelfSettled.questions = Reached.shelfUpdated.questions ∧
    shelfSettled.memory ≠ Reached.shelfUpdated.memory ∧
    (shelfWork.updateFile ⟨false, ["a.py"]⟩ .root shelfSettled).2.memory =
      shelfSettled.memory := by
  have hrun : ∃ result, shelfWork.updateFile ⟨false, ["a.py"]⟩ .root shelfSession =
      (.ok result, Reached.shelfUpdated) := ⟨_, Prod.ext rfl rfl⟩
  obtain ⟨result, hfirst⟩ := id hrun
  obtain ⟨settled, hsettled⟩ := @updateFile_converges shelfWork ⟨false, ["a.py"]⟩ .root
    shelfSession shelfFresh result Reached.shelfUpdated Reached.shelfWork_answersValid
    shelfWork_answersEach rfl hfirst
  obtain ⟨result', hsecond⟩ : ∃ result', shelfWork.updateFile ⟨false, ["a.py"]⟩ .root
      Reached.shelfUpdated = (.ok result', shelfSettled) := ⟨_, Prod.ext rfl rfl⟩
  obtain ⟨hasked, hheld, hnext⟩ := hsettled 1 shelfSettled (.saved .start rfl rfl hsecond)
  have hmemory : shelfSettled.memory = settled := Except.ok.inj (hheld Nat.zero_lt_one)
  obtain ⟨-, ⟨_, after, -, hload, rfl⟩ | ⟨_, ⟨⟩, -⟩⟩ :=
    (hnext ⟨false, ["a.py"]⟩ rfl rfl).of_eq rfl
  refine ⟨Reached.shelfWork_answersValid, shelfWork_answersEach, rfl, hrun, hasked, by decide, ?_⟩
  rw [hmemory]
  exact Except.ok.inj hload

end Workflow

end Marginalia
