import Marginalia.Proofs.Edits

/-!
Sessions of any length. Whatever tasks are done, and whatever fails in between, a store in which a
workflow has succeeded loads, and the ids of its records are counted up from zero.
-/

namespace Marginalia

/-! ## Sessions -/

/-- What is done in a session: the work of a workflow, or an edit by hand. -/
inductive Task where
  | classifyWorkspace (w : Workflow) (root : Path)
  | updateFile (w : Workflow) (path root : Path)
  | updateWorkspace (w : Workflow) (root : Path)
  | edit (id : Int) (level : Option Text) (tags : Option (List Text))

namespace Task

def isWorkflow : Task → Bool
  | edit .. => false
  | _ => true

/-- Whatever classifier the task has, its answers can be stored. -/
def AnswersValid : Task → Prop
  | classifyWorkspace w _ | updateFile w _ _ | updateWorkspace w _ => w.AnswersValid
  | edit .. => True

/-- The task is done on the store and succeeds, or fails, with a session behind it. -/
inductive Done (store : Store) (s : Session) : Task → Bool → Session → Prop where
  | classified {w : Workflow} {root : Path} {r : Except Failure Batch} {s' : Session} :
      w.store = store → w.classifyWorkspace root s = (r, s') →
      Done store s (.classifyWorkspace w root) r.isOk s'
  | fileUpdated {w : Workflow} {path root : Path} {r : Except Failure Reconciliation}
      {s' : Session} :
      w.store = store → w.updateFile path root s = (r, s') →
      Done store s (.updateFile w path root) r.isOk s'
  | workspaceUpdated {w : Workflow} {root : Path}
      {r : Except Failure (List (Text × Reconciliation))} {s' : Session} :
      w.store = store → w.updateWorkspace root s = (r, s') →
      Done store s (.updateWorkspace w root) r.isOk s'
  | edited {id : Int} {level : Option Text} {tags : Option (List Text)}
      {r : Except Failure Record} {s' : Session} :
      store.update id level tags s = (r, s') → Done store s (.edit id level tags) r.isOk s'

end Task

/-- The sessions that come of one: by tasks, whether they succeed or fail, and by changes to the
files around the store. The flag tells whether a workflow has succeeded. -/
inductive Reached (store : Store) (start : Session) : Bool → Session → Prop where
  | start : Reached store start false start
  | task {settled ok : Bool} {s s' : Session} {t : Task} : Reached store start settled s →
      t.AnswersValid → t.Done store s ok s' →
      Reached store start (settled || (t.isWorkflow && ok)) s'
  | world {settled : Bool} {s s' : Session} : Reached store start settled s →
      store.SameIn s s' → Reached store start settled s'

/-- The store loads, with ids that are counted up from zero. -/
def Store.HoldsCounted (store : Store) (s : Session) : Prop :=
  ∃ b, (store.load s).1 = .ok b ∧ b.Counted

theorem Store.HoldsCounted.sameIn {store : Store} {s s' : Session} (h : store.HoldsCounted s)
    (hsame : store.SameIn s s') : store.HoldsCounted s' := by
  obtain ⟨b, hload, hcounted⟩ := h
  exact ⟨b, hsame.load_eq.trans hload, hcounted⟩

/-- What is done either succeeds and stores, or fails and leaves the store alone. -/
theorem Run.Stores.of_eq {α : Type} {work : Run α} {store : Store} {s s' : Session}
    {Q : Batch → Prop} {r : Except Failure α} (h : work.Stores store s Q)
    (hrun : work s = (r, s')) :
    (r.isOk = false ∧ store.SameIn s s') ∨
      (r.isOk = true ∧ ∃ b, (store.load s').1 = .ok b ∧ Q b) := by
  obtain ⟨r', t, hrun', hafter⟩ := h
  cases hrun.symm.trans hrun'
  rcases hafter with ⟨f, rfl, hsame⟩ | ⟨a, b, rfl, hload, hQ⟩
  · exact .inl ⟨rfl, hsame⟩
  · exact .inr ⟨rfl, b, hload, hQ⟩

namespace Task

variable {store : Store} {s s' : Session} {t : Task} {ok : Bool}

/-- One task: a workflow that succeeds counts the ids, an edit keeps them, and whatever fails
leaves the store alone. -/
theorem Done.cases_store (h : t.Done store s ok s') (ht : t.AnswersValid) :
    (ok = false ∧ store.SameIn s s') ∨
      (ok = true ∧ t.isWorkflow = true ∧ store.HoldsCounted s') ∨
      (ok = true ∧ t.isWorkflow = false ∧ (store.HoldsCounted s → store.HoldsCounted s')) := by
  cases h with
  | classified hstore hrun =>
      subst hstore
      rcases (Workflow.classifyWorkspace_stores ht _ s).of_eq hrun with hfail | ⟨hok, hstored⟩
      · exact .inl hfail
      · exact .inr (.inl ⟨hok, rfl, hstored⟩)
  | fileUpdated hstore hrun =>
      subst hstore
      rcases (Workflow.updateFile_stores ht _ _ s).of_eq hrun with hfail | ⟨hok, hstored⟩
      · exact .inl hfail
      · exact .inr (.inl ⟨hok, rfl, hstored⟩)
  | workspaceUpdated hstore hrun =>
      subst hstore
      rcases (Workflow.updateWorkspace_stores ht _ s).of_eq hrun with hfail | ⟨hok, hstored⟩
      · exact .inl hfail
      · exact .inr (.inl ⟨hok, rfl, hstored⟩)
  | edited hrun =>
      rcases (store.update_stores _ _ _ s).of_eq hrun with hfail | ⟨hok, b', hload', b, hload, hids⟩
      · exact .inl hfail
      · right
        right
        refine ⟨hok, rfl, ?_⟩
        intro hcounted
        obtain ⟨own, hown, hcounted⟩ := hcounted
        cases hload.symm.trans hown
        exact ⟨b', hload', hcounted.of_ids hids⟩

/-- What one task preserves. -/
theorem Done.holdsCounted {settled : Bool} (h : t.Done store s ok s') (ht : t.AnswersValid)
    (hs : settled = true → store.HoldsCounted s)
    (hsettled : (settled || (t.isWorkflow && ok)) = true) : store.HoldsCounted s' := by
  rcases h.cases_store ht with ⟨rfl, hsame⟩ | ⟨rfl, -, hcounted⟩ | ⟨rfl, hedit, hkeeps⟩
  · rw [Bool.and_false, Bool.or_false] at hsettled
    exact (hs hsettled).sameIn hsame
  · exact hcounted
  · rw [hedit, Bool.false_and, Bool.or_false] at hsettled
    exact hkeeps (hs hsettled)

end Task

/-- What holds in every session that is reached after a workflow has succeeded. -/
theorem Reached.holdsCounted {store : Store} {start s : Session} {settled : Bool}
    (h : Reached store start settled s) : settled = true → store.HoldsCounted s := by
  induction h with
  | start =>
      intro hfalse
      cases hfalse
  | task _ ht hdone ih => exact hdone.holdsCounted ht ih
  | world _ hsame ih =>
      intro hsettled
      exact (ih hsettled).sameIn hsame

/-- After the first workflow that succeeds the store always loads. The ids of its records, file by
file, are counted up from zero, so that each of them names one record. -/
theorem Reached.counted_ids {store : Store} {start s : Session} (h : Reached store start true s) :
    ∃ b, (store.load s).1 = .ok b ∧
      b.records.map Record.id = (List.range b.records.length).map Nat.cast ∧
      ∀ n < b.records.length, ∃! i : Nat, (b.records[i]?).map Record.id = some (n : Int) := by
  obtain ⟨b, hload, hcounted⟩ := h.holdsCounted rfl
  refine ⟨b, hload, hcounted, ?_⟩
  have hat : ∀ i : Nat, (b.records[i]?).map Record.id =
      ((List.range b.records.length)[i]?).map Nat.cast := by
    intro i
    rw [← List.getElem?_map, ← List.getElem?_map]
    exact congrArg (·[i]?) hcounted
  intro n hn
  refine ⟨n, ?_, ?_⟩
  · simp only [hat, List.getElem?_range hn, Option.map_some]
  · intro i hi
    rw [hat] at hi
    obtain ⟨j, hj, hcast⟩ := Option.map_eq_some_iff.mp hi
    obtain ⟨hlt, rfl⟩ := List.getElem?_eq_some_iff.mp hj
    rw [List.getElem_range] at hcast
    exact Int.ofNat.inj hcast

/-! ### A session in memory -/

namespace Reached

theorem shelfWork_answersValid : Workflow.shelfWork.AnswersValid := by
  intro c hc
  cases hc
  constructor
  · intro rs answers hrs hanswers r hr
    cases hanswers
    obtain ⟨own, hown, rfl⟩ := List.mem_map.mp hr
    exact (hrs own hown).congr rfl rfl
  · intro b answers hb hanswers
    cases hanswers
    exact hb

/-- The session after the file has been extracted. -/
def shelfUpdated : Session :=
  (Workflow.shelfWork.updateFile ⟨false, ["a.py"]⟩ .root Workflow.shelfSession).2

/-- The same once all files are gone. -/
def shelfCleared : Session := { shelfUpdated with files := ⟨.directory [], .root⟩ }

/-- The same after an edit. -/
def shelfEdited : Session :=
  (Store.memory.update 1 (some "class") (some ["done", ""]) shelfCleared).2

set_option maxRecDepth 10000 in
theorem shelfEdited_reached : Reached .memory Workflow.shelfSession true shelfEdited := by
  obtain ⟨result, hresult⟩ : ∃ result,
      (Workflow.shelfWork.updateFile ⟨false, ["a.py"]⟩ .root Workflow.shelfSession).1 =
        .ok result := ⟨_, rfl⟩
  have hrun : Workflow.shelfWork.updateFile ⟨false, ["a.py"]⟩ .root Workflow.shelfSession =
      (.ok result, shelfUpdated) := Prod.ext hresult rfl
  have hdone : Task.Done .memory Workflow.shelfSession
      (.updateFile Workflow.shelfWork ⟨false, ["a.py"]⟩ .root) true shelfUpdated :=
    .fileUpdated rfl hrun
  have hvalid : (Task.updateFile Workflow.shelfWork ⟨false, ["a.py"]⟩ .root).AnswersValid :=
    shelfWork_answersValid
  have hupdated : Reached .memory Workflow.shelfSession true shelfUpdated :=
    Reached.start.task hvalid hdone
  have hcleared : Reached .memory Workflow.shelfSession true shelfCleared := hupdated.world rfl
  have hedit : (Task.edit 1 (some "class") (some ["done", ""])).Done .memory shelfCleared
      (Store.memory.update 1 (some "class") (some ["done", ""]) shelfCleared).1.isOk shelfEdited :=
    .edited rfl
  have hany : (Task.edit 1 (some "class") (some ["done", ""])).AnswersValid := trivial
  exact hcleared.task hany hedit

set_option maxRecDepth 10000 in
theorem counted_ids_shelf :
    Reached .memory Workflow.shelfSession true shelfEdited ∧
    (Store.memory.load shelfEdited).1 = .ok shelfEdited.memory ∧
    shelfEdited.memory.records.map Record.id = [0, 1, 2] := by
  obtain ⟨b, hload, hids, -⟩ := shelfEdited_reached.counted_ids
  cases hload
  exact ⟨shelfEdited_reached, rfl, hids⟩

end Reached

end Marginalia
