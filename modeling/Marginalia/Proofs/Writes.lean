import Marginalia.Proofs.Runs

/-!
What work on a store writes. Every workflow and every edit by hand only reads up to its last step,
and this step writes one batch. So a failure before it leaves what is stored as it was.
-/

namespace Marginalia

/-- Nothing has been stored in between: the files and the memory are the same. -/
structure Session.Unwritten (s s' : Session) : Prop where
  files : s'.files = s.files
  memory : s'.memory = s.memory
  saves : s'.saves = s.saves

namespace Session.Unwritten

variable {s s' s'' : Session}

theorem refl (s : Session) : s.Unwritten s := ⟨rfl, rfl, rfl⟩

theorem trans (h : s.Unwritten s') (h' : s'.Unwritten s'') : s.Unwritten s'' :=
  ⟨h'.files.trans h.files, h'.memory.trans h.memory, h'.saves.trans h.saves⟩

end Session.Unwritten

namespace Run

variable {α β : Type} {work : Run α} {next : α → Run β} {write : Batch → Run Unit}

/-! ## Work that only reads -/

/-- The work stores nothing, whether it ends with a value or fails. -/
def OnlyReads (work : Run α) : Prop := ∀ s : Session, s.Unwritten (work s).2

theorem onlyReads_pure (a : α) : OnlyReads (pure a) := Session.Unwritten.refl

theorem onlyReads_throw (f : Failure) : OnlyReads (throw f : Run α) := Session.Unwritten.refl

theorem onlyReads_get : OnlyReads get := Session.Unwritten.refl

theorem onlyReads_modify {f : Session → Session} (h : ∀ s : Session, s.Unwritten (f s)) :
    OnlyReads (modify f) := h

theorem OnlyReads.bind (h : work.OnlyReads) (hnext : ∀ a, (next a).OnlyReads) :
    (work >>= next).OnlyReads := by
  intro s
  have hwork := h s
  change s.Unwritten ((ExceptT.bindCont next (work s).1 : StateM Session _) (work s).2).2
  cases (work s).1 with
  | error f => exact hwork
  | ok a => exact hwork.trans (hnext a (work s).2)

theorem OnlyReads.map (h : work.OnlyReads) (f : α → β) : (f <$> work).OnlyReads := by
  rw [← bind_pure_comp]
  exact h.bind fun a => onlyReads_pure (f a)

theorem onlyReads_note (entries : Log) : (note entries).OnlyReads :=
  onlyReads_modify fun _ => ⟨rfl, rfl, rfl⟩

theorem onlyReads_noted (outcome : Log × Except Failure α) : (noted outcome).OnlyReads := by
  obtain ⟨log, r⟩ := outcome
  apply (onlyReads_note log).bind
  intro _
  cases r with
  | ok a => exact onlyReads_pure a
  | error f => exact onlyReads_throw f

theorem onlyReads_askFile (c : Classifier) (records : List Record) :
    (askFile c records).OnlyReads := by
  refine OnlyReads.bind ?_ fun _ => onlyReads_noted _
  exact onlyReads_modify fun _ => ⟨rfl, rfl, rfl⟩

theorem onlyReads_askAll (c : Classifier) (batch : Batch) : (askAll c batch).OnlyReads := by
  refine OnlyReads.bind ?_ fun _ => onlyReads_noted _
  exact onlyReads_modify fun _ => ⟨rfl, rfl, rfl⟩

theorem onlyReads_enrich (dates : Dates) (batch : Batch) : (enrich dates batch).OnlyReads := by
  refine OnlyReads.bind ?_ fun _ => onlyReads_noted _
  exact onlyReads_modify fun _ => ⟨rfl, rfl, rfl⟩

/-! ## Work that writes last -/

/-- The work is made of a part that only reads and of one write of the batch which that part ends
with. -/
def Splits (work : Run α) (write : Batch → Run Unit) : Prop :=
  ∃ prepare : Run (α × Batch), prepare.OnlyReads ∧
    work = prepare >>= fun r => write r.2 >>= fun _ => pure r.1

theorem splits_write (write : Batch → Run Unit) (batch : Batch) (a : α) :
    Splits (write batch >>= fun _ => pure a) write :=
  ⟨pure (a, batch), onlyReads_pure _, by rw [pure_bind]⟩

/-- What only reads may come before. -/
theorem OnlyReads.splits (h : work.OnlyReads) (hnext : ∀ a, (next a).Splits write) :
    (work >>= next).Splits write := by
  choose prepare hreads hsplit using hnext
  refine ⟨work >>= prepare, h.bind hreads, ?_⟩
  rw [bind_assoc]
  exact congrArg (work >>= ·) (funext hsplit)

end Run

namespace Store

/-- What an edit by hand does with the batch: no save is counted in memory. -/
def replace (batch : Batch) : Store → Run Unit
  | memory => modify fun s => { s with memory := batch }
  | file path => saveFile path batch

/-- The store holds just this batch. -/
def HasWritten : Store → Batch → Session → Prop
  | memory, batch, s => s.memory = batch
  | file path, batch, s => s.files.tree.read (s.files.base.join path) = .ok batch.dump.encode

variable {batch : Batch} {s s' : Session}

theorem hasWritten_of_saveFile {path : Path} (h : saveFile path batch s = (.ok (), s')) :
    (file path).HasWritten batch s' := by
  rw [saveFile_eq] at h
  cases hw : written s.files path batch with
  | error e =>
      rw [hw] at h
      cases h
  | ok tree =>
      have hread := read_of_written hw
      rw [hw] at h
      cases h
      exact hread

theorem hasWritten_of_save {store : Store} (h : store.save batch s = (.ok (), s')) :
    store.HasWritten batch s' := by
  cases store with
  | memory =>
      cases h
      rfl
  | file path => exact hasWritten_of_saveFile h

theorem hasWritten_of_replace {store : Store} (h : store.replace batch s = (.ok (), s')) :
    store.HasWritten batch s' := by
  cases store with
  | memory =>
      cases h
      rfl
  | file path => exact hasWritten_of_saveFile h

end Store

namespace Run

variable {α : Type}

/-- The work reads until its last step, which writes one batch to the store. If it fails, it has
written nothing, or it is the write that fails; if it ends with a value, this batch is stored. -/
structure WritesLast (work : Run α) (store : Store) (write : Batch → Run Unit) : Prop where
  splits : work.Splits write
  failed : ∀ {s s' f}, work s = (.error f, s') → s.Unwritten s' ∨
    ∃ t batch, s.Unwritten t ∧ write batch t = (.error f, s')
  stored : ∀ {s s' a}, work s = (.ok a, s') → ∃ t batch, s.Unwritten t ∧
    write batch t = (.ok (), s') ∧ store.HasWritten batch s'

variable {work : Run α} {store : Store} {write : Batch → Run Unit} {s : Session}

/-- How work ends that writes last. -/
theorem Splits.cases (h : work.Splits write) (s : Session) :
    (∃ f s', work s = (.error f, s') ∧ s.Unwritten s') ∨
      ∃ t batch a, s.Unwritten t ∧
        work s = ((fun _ => a) <$> (write batch t).1, (write batch t).2) := by
  obtain ⟨prepare, hreads, rfl⟩ := h
  have hs := hreads s
  rcases hprepare : prepare s with ⟨f | ⟨a, batch⟩, t⟩
  · rw [hprepare] at hs
    exact .inl ⟨f, t, bind_of_error hprepare, hs⟩
  · rw [hprepare] at hs
    refine .inr ⟨t, batch, a, hs, (bind_of_ok hprepare).trans ?_⟩
    rw [bind_pure_comp]
    exact map_apply _ _ t

theorem Splits.writesLast (h : work.Splits write)
    (hwrite : ∀ {batch s s'}, write batch s = (.ok (), s') → store.HasWritten batch s') :
    work.WritesLast store write := by
  constructor
  · exact h
  · intro s s' f hrun
    rcases h.cases s with ⟨f', t, hfail, ht⟩ | ⟨t, batch, a, ht, hend⟩
    · cases hfail.symm.trans hrun
      exact .inl ht
    · rw [hend] at hrun
      rcases hwritten : write batch t with ⟨f' | u, s''⟩
      · rw [hwritten] at hrun
        cases hrun
        exact .inr ⟨t, batch, ht, hwritten⟩
      · rw [hwritten] at hrun
        cases hrun
  · intro s s' a hrun
    rcases h.cases s with ⟨f', t, hfail, ht⟩ | ⟨t, batch, a', ht, hend⟩
    · cases hfail.symm.trans hrun
    · rw [hend] at hrun
      rcases hwritten : write batch t with ⟨f' | u, s''⟩
      · rw [hwritten] at hrun
        cases hrun
      · rw [hwritten] at hrun
        cases hrun
        exact ⟨t, batch, ht, hwritten, hwrite hwritten⟩

end Run

/-! ## The steps before the last -/

theorem Store.onlyReads_loadFile (path : Path) : (loadFile path).OnlyReads := by
  apply Run.onlyReads_get.bind
  intro s
  dsimp only
  split
  · exact Run.onlyReads_noted _
  · exact (Run.onlyReads_note _).bind fun _ => Run.onlyReads_pure _
  · exact Run.onlyReads_throw _

theorem Store.onlyReads_load (store : Store) : store.load.OnlyReads := by
  cases store with
  | memory => exact Run.onlyReads_get.bind fun s => Run.onlyReads_pure s.memory
  | file path => exact onlyReads_loadFile path

namespace Workflow

variable (w : Workflow)

theorem onlyReads_enrich (batch : Batch) : (w.enrich batch).OnlyReads := by
  unfold enrich
  split
  · exact Run.onlyReads_enrich w.dates batch
  · exact Run.onlyReads_pure batch

theorem onlyReads_extractTree (root : Path) : (w.extractTree root).OnlyReads :=
  Run.onlyReads_get.bind fun _ => (Run.onlyReads_note _).bind fun _ => w.onlyReads_enrich _

theorem onlyReads_extractFile (file root : Path) : (w.extractFile file root).OnlyReads :=
  Run.onlyReads_get.bind fun _ => (Run.onlyReads_noted _).bind fun _ =>
    (w.onlyReads_enrich _).bind fun _ => Run.onlyReads_pure _

theorem onlyReads_classify (records : List Record) : (w.classify records).OnlyReads := by
  unfold classify
  cases w.classifier with
  | none => exact Run.onlyReads_pure records
  | some c =>
      dsimp only
      split
      · exact Run.onlyReads_pure records
      · exact Run.onlyReads_askFile c records

theorem onlyReads_classifyPending (pending : Batch) : (w.classifyPending pending).OnlyReads := by
  unfold classifyPending
  cases w.classifier with
  | none => exact Run.onlyReads_pure pending
  | some c =>
      dsimp only
      split
      · exact Run.onlyReads_pure pending
      · exact Run.onlyReads_askAll c pending

/-! ## Workflows and edits -/

theorem splits_classifyWorkspace (root : Path) :
    (w.classifyWorkspace root).Splits fun batch => w.store.save batch := by
  have hsave : ∀ batch : Batch, Run.Splits (w.store.save batch >>= fun _ => pure batch)
      fun batch => w.store.save batch := fun batch =>
    Run.splits_write (fun batch => w.store.save batch) batch batch
  apply (w.onlyReads_extractTree root).splits
  intro batch
  cases w.classifier with
  | none => exact (Run.onlyReads_pure batch).splits hsave
  | some c => exact ((Run.onlyReads_askAll c batch).map Batch.numbered).splits hsave

theorem splits_updateFile (path root : Path) :
    (w.updateFile path root).Splits fun batch => w.store.save batch := by
  apply Run.onlyReads_get.splits
  intro s
  apply (w.onlyReads_extractFile _ root).splits
  intro current
  apply w.store.onlyReads_load.splits
  intro stored
  apply (Run.onlyReads_note _).splits
  intro _
  apply (w.onlyReads_classify _).splits
  intro classified
  exact Run.splits_write (fun batch => w.store.save batch) _ _

theorem splits_updateWorkspace (root : Path) :
    (w.updateWorkspace root).Splits fun batch => w.store.save batch := by
  apply (w.onlyReads_extractTree root).splits
  intro current
  apply w.store.onlyReads_load.splits
  intro stored
  apply (w.onlyReads_classifyPending _).splits
  intro answers
  exact Run.splits_write (fun batch => w.store.save batch) _ _

end Workflow

namespace Store

theorem splits_update (store : Store) (id : Int) (level : Option Text) (tags : Option (List Text)) :
    (store.update id level tags).Splits fun batch => store.replace batch := by
  apply store.onlyReads_load.splits
  intro batch
  apply (Run.onlyReads_noted _).splits
  rintro ⟨batch, edited⟩
  cases store with
  | memory => exact Run.splits_write (fun batch => memory.replace batch) batch edited
  | file path => exact Run.splits_write (fun batch => (file path).replace batch) batch edited

/-- Whatever is stored, and wherever they fail, workflows and edits by hand write nothing before
their last step, and with this step they write once. -/
theorem writes_last (w : Workflow) (path root : Path) (store : Store) (id : Int)
    (level : Option Text) (tags : Option (List Text)) :
    (w.classifyWorkspace root).WritesLast w.store (fun batch => w.store.save batch) ∧
    (w.updateFile path root).WritesLast w.store (fun batch => w.store.save batch) ∧
    (w.updateWorkspace root).WritesLast w.store (fun batch => w.store.save batch) ∧
    (store.update id level tags).WritesLast store (fun batch => store.replace batch) :=
  ⟨(w.splits_classifyWorkspace root).writesLast hasWritten_of_save,
    (w.splits_updateFile path root).writesLast hasWritten_of_save,
    (w.splits_updateWorkspace root).writesLast hasWritten_of_save,
    (store.splits_update id level tags).writesLast hasWritten_of_replace⟩

end Store

end Marginalia
