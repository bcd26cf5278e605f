import Marginalia.Proofs.Sources
import Marginalia.Proofs.Watching

/-!
What the watch command adds to the store, beside what a walk finds. The watcher looks at the suffix
of a changed file alone, and so hands on files in directories that the walk leaves out.
-/

namespace Marginalia

namespace Workflow

variable {w : Workflow} {key other : Text} {root path : Path} {s s' : Session}
  {r : Except Failure Reconciliation}

/-- The store has an entry for the file at `key`. -/
def Lists (w : Workflow) (s : Session) (key : Text) : Prop :=
  ∃ b, (w.store.load s).1 = .ok b ∧ key ∈ b.paths

theorem lists_iff_of_sameIn (h : w.store.SameIn s s') : w.Lists s' key ↔ w.Lists s key := by
  rw [Lists, Lists, h.load_eq]

theorem lists_iff_of_extends {asked : List Question} (h : s.Extends s' asked) :
    w.Lists s' key ↔ w.Lists s key :=
  lists_iff_of_sameIn (Store.sameIn_of_extends w.store h)

/-- An update adds no entry but that of its file. -/
theorem Updated.lists (h : w.Updated other s (r, s')) (hkey : w.Lists s' key) :
    w.Lists s key ∨ (∃ result, r = .ok result) ∧ key = other := by
  cases h with
  | failed hsame _ => exact .inl ((lists_iff_of_sameIn hsame).mp hkey)
  | stored hbefore hafter _ =>
      obtain ⟨b, hb, hmem⟩ := hkey
      cases hafter.symm.trans hb
      rw [Store.paths_kept, Batch.paths_numbered, Batch.paths_put] at hmem
      split at hmem
      · exact .inl ⟨_, hbefore, hmem⟩
      · rcases List.mem_append.mp hmem with hold | hnew
        · exact .inl ⟨_, hbefore, hold⟩
        · exact .inr ⟨⟨_, rfl⟩, List.mem_singleton.mp hnew⟩

/-- The path can be updated in the session, and its entry is that for `key`. -/
def Enters (w : Workflow) (root path : Path) (s : Session) (key : Text) : Prop :=
  ∃ result s', w.updateFile path root s = (.ok result, s') ∧ key = (s.files.resolve path).toText

end Workflow

namespace Command

variable {w : Workflow} {root path : Path} {paths : List Path} {batch : List Change}
  {batches : List (List Change)} {s s' turn : Session} {key : Text} {r : Except Failure Unit}

/-! ## Entries of one batch -/

theorem updateOne_lists (hw : w.AnswersValid) (hrun : updateOne w root path s = (r, s')) :
    s'.ResolvesAs s ∧ ∀ key, w.Lists s' key → w.Lists s key ∨ w.Enters root path s key := by
  have hupdated := Workflow.updateFile_updated hw path root s
  rcases hupdate : w.updateFile path root s with ⟨f | result, s₁⟩
  · rw [hupdate] at hupdated
    cases (updateOne_of_error hupdate).symm.trans hrun
    refine ⟨hupdated.resolvesAs, fun key hkey => ?_⟩
    rcases hupdated.lists hkey with hold | ⟨⟨result, hresult⟩, -⟩
    · exact .inl hold
    · cases hresult
  · rw [hupdate] at hupdated
    obtain ⟨s₂, hnoted, hs₂⟩ := updateOne_of_ok hupdate
    cases hnoted.symm.trans hrun
    refine ⟨hs₂.resolvesAs.trans hupdated.resolvesAs, fun key hkey => ?_⟩
    rcases hupdated.lists ((Workflow.lists_iff_of_extends hs₂).mp hkey) with hold | ⟨-, hnew⟩
    · exact .inl hold
    · exact .inr ⟨_, _, hupdate, hnew⟩

/-- Each entry that updates one after the other add is that of one of them, and all those before it
could be made. -/
theorem updateEach_lists (hw : w.AnswersValid) (hrun : updateEach w root paths s = (r, s')) :
    s'.ResolvesAs s ∧ ∀ key, w.Lists s' key → w.Lists s key ∨ ∃ front path back turn,
      paths = front ++ path :: back ∧ updateEach w root front s = (.ok (), turn) ∧
        w.Enters root path turn key := by
  induction paths generalizing s with
  | nil =>
      cases hrun
      exact ⟨fun p => rfl, fun key => .inl⟩
  | cons path paths ih =>
      rw [updateEach_cons] at hrun
      rcases hone : updateOne w root path s with ⟨f | u, s₁⟩
      · obtain ⟨hresolves, hlists⟩ := updateOne_lists hw hone
        cases (Run.bind_of_error hone).symm.trans hrun
        refine ⟨hresolves, fun key hkey => ?_⟩
        exact (hlists key hkey).imp_right fun hnew => ⟨[], path, paths, s, rfl, rfl, hnew⟩
      · obtain ⟨hresolves, hlists⟩ := updateOne_lists hw hone
        rw [Run.bind_of_ok hone] at hrun
        obtain ⟨hresolves', hlists'⟩ := ih hrun
        refine ⟨hresolves'.trans hresolves, fun key hkey => ?_⟩
        rcases hlists' key hkey with hkey | ⟨front, q, back, turn, rfl, hfront, hnew⟩
        · exact (hlists key hkey).imp_right fun hnew => ⟨[], path, paths, s, rfl, rfl, hnew⟩
        · refine .inr ⟨path :: front, q, back, turn, rfl, ?_, hnew⟩
          rw [updateEach_cons, Run.bind_of_ok hone]
          exact hfront

/-! ## Entries of all batches -/

/-- The path has its turn in some batch, after those before it in the batch have been updated. -/
def HasTurn (w : Workflow) (root : Path) (batches : List (List Change)) (s : Session)
    (path : Path) (turn : Session) : Prop :=
  ∃ earlier batch later front back, batches = earlier ++ batch :: later ∧
    turns batch = front ++ path :: back ∧
    updateEach w root front ((handedOn w root earlier s).noting [detected batch]) = (.ok (), turn)

theorem handOn_lists (hw : w.AnswersValid) (root : Path) (batch : List Change) (s : Session) :
    (handOn w root batch s).2.ResolvesAs s ∧ ∀ key, w.Lists (handOn w root batch s).2 key →
      w.Lists s key ∨ ∃ path turn, HasTurn w root [batch] s path turn ∧
        w.Enters root path turn key := by
  by_cases h : Change.sources batch = []
  · rw [handOn_of_nil h]
    exact ⟨fun p => rfl, fun key => .inl⟩
  · rcases hrun : updateEach w root (turns batch) (s.noting [detected batch]) with ⟨r, turn⟩
    obtain ⟨s', hhand, hs'⟩ := exists_handOn h hrun
    obtain ⟨hresolves, hlists⟩ := updateEach_lists hw hrun
    have hnoted := s.extends_noting [detected batch]
    rw [hhand]
    refine ⟨hs'.resolvesAs.trans (hresolves.trans hnoted.resolvesAs), fun key hkey => ?_⟩
    rcases hlists key ((Workflow.lists_iff_of_extends hs').mp hkey) with
      hold | ⟨front, path, back, turn, hturns, hfront, hnew⟩
    · exact .inl ((Workflow.lists_iff_of_extends hnoted).mp hold)
    · exact .inr ⟨path, turn, ⟨[], batch, [], front, back, rfl, hturns, hfront⟩, hnew⟩

/-- Each entry that batches add is that of a path that had its turn. -/
theorem handedOn_lists (hw : w.AnswersValid) (root : Path) (batches : List (List Change))
    (s : Session) :
    (handedOn w root batches s).ResolvesAs s ∧ ∀ key, w.Lists (handedOn w root batches s) key →
      w.Lists s key ∨ ∃ path turn, HasTurn w root batches s path turn ∧
        w.Enters root path turn key := by
  induction batches generalizing s with
  | nil => exact ⟨fun p => rfl, fun key => .inl⟩
  | cons batch batches ih =>
      obtain ⟨hresolves, hlists⟩ := handOn_lists hw root batch s
      obtain ⟨hresolves', hlists'⟩ := ih (handOn w root batch s).2
      refine ⟨hresolves'.trans hresolves, fun key hkey => ?_⟩
      rcases hlists' key hkey with
        hkey | ⟨path, turn, ⟨earlier, own, later, front, back, rfl, hturns, hfront⟩, hnew⟩
      · refine (hlists key hkey).imp_right ?_
        rintro ⟨path, turn, ⟨earlier, own, later, front, back, hown, hturns, hfront⟩, hnew⟩
        refine ⟨path, turn, ⟨earlier, own, later ++ batches, front, back, ?_, hturns, hfront⟩, hnew⟩
        rw [← List.singleton_append, hown, List.append_assoc, List.cons_append]
      · exact .inr ⟨path, turn, ⟨batch :: earlier, own, later, front, back, rfl, hturns, hfront⟩,
          hnew⟩

theorem HasTurn.resolvesAs (hw : w.AnswersValid) (h : HasTurn w root batches s path turn) :
    turn.ResolvesAs s := by
  obtain ⟨earlier, batch, later, front, back, -, -, hfront⟩ := h
  exact (updateEach_lists hw hfront).1.trans
    ((Session.extends_noting _ _).resolvesAs.trans (handedOn_lists hw root earlier s).1)

/-- Only what has changed, was not deleted and is supported has a turn. -/
theorem HasTurn.exists_change (h : HasTurn w root batches s path turn) :
    ∃ batch ∈ batches, ∃ c ∈ batch,
      c.path = path ∧ c.kind ≠ .deleted ∧ Language.isSupported path = true := by
  obtain ⟨earlier, batch, later, front, back, rfl, hturns, -⟩ := h
  refine ⟨batch, by simp, ?_⟩
  have hpath : path ∈ turns batch := by simp [hturns]
  have hmem := Sequence.mem_of_mem_distinctBy (Sequence.mem_sort.mp hpath)
  obtain ⟨c, hc, rfl⟩ := List.mem_map.mp hmem
  obtain ⟨hc, hkind⟩ := List.mem_filter.mp hc
  rw [Bool.and_eq_true, bne_iff_ne] at hkind
  exact ⟨c, hc, rfl, hkind⟩

/-- The watch command updates changed files of a supported suffix, and what it adds to the store are
the files of updates that could be made. The file of an update is one that the walk finds just where
it lies below the root, its own suffix is a supported one, and no directory in between is left out.
-/
theorem runWatch_covers_iff {env : Surroundings} {offline : Bool}
    (hworkflow : (workflow env root offline s).1 = .ok w) :
    let begun := s.noting (Watcher.start ⟨root, .off⟩).1
    (∃ printed final, runWatch env root offline s = (.ok printed, final) ∧
      ∀ key, w.Lists final key → w.Lists s key ∨
        ∃ path turn, HasTurn w root env.changes begun path turn ∧ w.Enters root path turn key) ∧
    ∀ path turn, HasTurn w root env.changes begun path turn →
      (∃ batch ∈ env.changes, ∃ c ∈ batch,
        c.path = path ∧ c.kind ≠ .deleted ∧ Language.isSupported path = true) ∧
      turn.ResolvesAs s ∧
      ∀ content, turn.files.tree.read (turn.files.base.join path) = .ok content →
        (turn.files.resolve path ∈ turn.files.sources root ↔
          ∃ names ≠ [],
            FileTree.FoundBelow (s.files.resolve root) names (s.files.resolve path)) := by
  intro begun
  have hw := answersValid_of_workflow hworkflow
  have hbegun : s.Extends begun [] := s.extends_noting _
  constructor
  · obtain ⟨printed, final, hrun, hfinal⟩ := exists_runWatch hworkflow
    refine ⟨printed, final, hrun, fun key hkey => ?_⟩
    have hlists := (handedOn_lists hw root env.changes begun).2 key
    exact (hlists ((Workflow.lists_iff_of_extends hfinal).mp hkey)).imp_left
      (Workflow.lists_iff_of_extends hbegun).mp
  · intro path turn hturn
    have hresolves : turn.ResolvesAs s := (hturn.resolvesAs hw).trans hbegun.resolvesAs
    refine ⟨hturn.exists_change, hresolves, fun content hread => ?_⟩
    rw [Files.mem_sources_iff hread, hresolves path, hresolves root]

/-! ### A source among what is built -/

def shed : Files :=
  ⟨.directory [("a.st", .file (Text.encode "\"a\"")),
    ("build", .directory [("b.st", .file (Text.encode "\"b\""))])], .root⟩

def shedSource : Path := ⟨false, ["a.st"]⟩

def shedBuilt : Path := ⟨false, ["build", "b.st"]⟩

def shedSurroundings (path : Path) : Surroundings := cellarSurroundings [[⟨.modified, path⟩]]

/-- The session in which a changed file has its turn. -/
def shedTurn (path : Path) : Session :=
  ((Session.start shed).noting (Watcher.start ⟨.here, .off⟩).1).noting
    [detected [⟨.modified, path⟩]]

theorem runWatch_covers_iff_shed :
    (workflow (shedSurroundings shedSource) .here true (.start shed)).1 = .ok cellarWork ∧
    (shedTurn shedSource).files.resolve shedSource ∈ (shedTurn shedSource).files.sources .here := by
  have hworkflow : (workflow (shedSurroundings shedSource) .here true (.start shed)).1 =
      .ok cellarWork := rfl
  obtain ⟨-, hturns⟩ := runWatch_covers_iff hworkflow
  have hturn : HasTurn cellarWork .here (shedSurroundings shedSource).changes
      ((Session.start shed).noting (Watcher.start ⟨.here, .off⟩).1) shedSource
      (shedTurn shedSource) :=
    ⟨[], [⟨.modified, shedSource⟩], [], [], [], rfl, by decide, rfl⟩
  obtain ⟨-, -, hcovers⟩ := hturns shedSource _ hturn
  refine ⟨hworkflow, (hcovers (Text.encode "\"a\"") rfl).mpr ⟨["a.st"], by decide, ?_⟩⟩
  exact ⟨by decide +kernel, by decide +kernel, FileTree.walked_singleton _⟩

/-- A file that is built enters the store, although no walk finds it. -/
theorem shed_entered :
    let s := (runWatch (shedSurroundings shedBuilt) .here true (.start shed)).2
    cellarWork.Lists s "/build/b.st" ∧
    (shedTurn shedBuilt).files.sources .here = [⟨true, ["a.st"]⟩] ∧
    s.files.sources .here = [⟨true, ["a.st"]⟩] := by
  intro s
  have hload : (cellarWork.store.load s).1 =
      .ok ⟨[("/build/b.st", [cellarRecord "b" "build/b.st"])], by decide⟩ :=
    eq_ok_of_toOption (by decide +kernel)
  exact ⟨⟨_, hload, List.mem_singleton.mpr rfl⟩, by decide +kernel, by decide +kernel⟩

end Command

end Marginalia
