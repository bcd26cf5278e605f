import Marginalia.Proofs.Update

/-!
Work that stores at most once: it either fails and leaves the store alone, or ends with what it has
saved. The first classification of a workspace stores a batch with counted ids.
-/

namespace Marginalia

/-! ## Work that stores once -/

namespace Run

variable {α β : Type} {work : Run α} {next : α → Run β} {s : Session}
  {P : α → Prop} {Q : Batch → Prop} {store : Store}

/-- The work stores nothing, and whatever it ends with satisfies `P`. -/
def Yields (work : Run α) (s : Session) (P : α → Prop) : Prop :=
  ∃ r asked, work.Reads s r asked ∧ ∀ a, r = .ok a → P a

/-- The work either fails and leaves the store as it is, or it leaves a batch that satisfies `Q`. -/
def Stores (work : Run α) (store : Store) (s : Session) (Q : Batch → Prop) : Prop :=
  ∃ r s', work s = (r, s') ∧
    ((∃ f, r = .error f ∧ store.SameIn s s') ∨
      ∃ a b, r = .ok a ∧ (store.load s').1 = .ok b ∧ Q b)

/-- Steps before the one that stores change nothing. -/
theorem Yields.stores (h : work.Yields s P)
    (hnext : ∀ a s' asked, P a → s.Extends s' asked → (next a).Stores store s' Q) :
    (work >>= next).Stores store s Q := by
  obtain ⟨r, asked, ⟨s', hrun, hs'⟩, hr⟩ := h
  have hsame := Store.sameIn_of_extends store hs'
  cases r with
  | error f => exact ⟨_, s', bind_of_error hrun, .inl ⟨f, rfl, hsame⟩⟩
  | ok a =>
      obtain ⟨r', s'', hrun', hafter⟩ := hnext a s' asked (hr a rfl) hs'
      refine ⟨r', s'', (bind_of_ok hrun).trans hrun', ?_⟩
      rcases hafter with ⟨f, hf, hkept⟩ | hstored
      · exact .inl ⟨f, hf, hsame.trans hkept⟩
      · exact .inr hstored

/-- A batch that is saved last is what is stored. -/
theorem stores_save {b : Batch} (hb : store.CanHold b) (hQ : Q (store.kept b)) (a : α)
    (s : Session) : Stores (store.save b >>= fun _ => pure a) store s Q := by
  rcases Store.load_save_kept hb s with ⟨s', hsave, hload, -⟩ | ⟨path, e, hstore, -, hsave⟩
  · exact ⟨.ok a, s', bind_of_ok hsave, .inr ⟨a, _, rfl, hload, hQ⟩⟩
  · refine ⟨_, s, bind_of_error hsave, .inl ⟨_, rfl, ?_⟩⟩
    rw [hstore]
    rfl

end Run

/-! ## Ids that a store keeps -/

theorem Store.ids_kept (store : Store) (b : Batch) : (store.kept b).ids = b.ids := by
  cases store with
  | memory => rfl
  | file path =>
      apply Batch.ids_mapFiles
      intro path rs
      rw [List.map_map]
      rfl

/-! ## Answers -/

/-- Whatever the classifier answers about records that can be stored can be stored. Ids, contents
and paths may be others than those it was asked about. -/
structure Classifier.AnswersValid (c : Classifier) : Prop where
  file : ∀ rs answers, (∀ r ∈ rs, r.Storable) → c.file rs = .ok answers →
    ∀ r ∈ answers, r.Storable
  all : ∀ b answers : Batch, b.Storable → c.all b = .ok answers → answers.Storable

theorem Response.exists_of_read {α : Type} {url : Text} {read : Json → Validated α}
    {response : Response} {x : α} (h : response.read url read = .ok x) :
    ∃ v, read v = .valid x := by
  cases response with
  | unreachable => cases h
  | answered status body =>
      simp only [Response.read] at h
      split at h
      · exact Bytes.exists_of_readJson (Validated.orFail_eq_ok.mp h)
      · cases h

/-- The classifier behind a web address has its answers validated, whatever the network does. -/
theorem Classifier.remote_answersValid (address : Text) (send : Request → Response) :
    (remote address send).AnswersValid := by
  constructor
  · intro rs answers _ h
    unfold remote at h
    dsimp only at h
    split at h
    · cases h
      intro r hr
      cases hr
    · obtain ⟨v, hv⟩ := Response.exists_of_read h
      exact fun r hr => (Record.wellFormed_of_listOfJson hv r hr).storable
  · intro b answers _ h
    obtain ⟨v, hv⟩ := Response.exists_of_read h
    exact (Batch.wellFormed_of_ofJson hv).storable

/-! ## Workflows -/

namespace Files

theorem wellFormed_extractTree (files : Files) (grammar : Grammar) (settings : Settings)
    (root : Path) : (files.extractTree grammar settings root).2.WellFormed := by
  unfold extractTree
  apply Batch.All.numbered
  · apply Batch.all_ofList
    intro f hf
    obtain ⟨found, hfound, rfl⟩ := List.mem_map.mp hf
    obtain ⟨p, -, rfl⟩ := List.mem_map.mp hfound
    exact wellFormed_of_mem_extractAmong _ p
  · intro r i hr
    exact hr.withId i

theorem counted_extractTree (files : Files) (grammar : Grammar) (settings : Settings)
    (root : Path) : (files.extractTree grammar settings root).2.Counted :=
  Batch.counted_numbered

end Files

namespace Workflow

variable {w : Workflow} {s : Session} {records : List Record}

/-- Answers of the classifier, if there is one, can be stored. -/
def AnswersValid (w : Workflow) : Prop := ∀ c, w.classifier = some c → c.AnswersValid

theorem ids_of_enriched {b b' : Batch} (h : w.enriched b = .ok b') : b'.ids = b.ids := by
  unfold enriched at h
  split at h
  · exact Batch.ids_of_enrich h
  · cases h
    rfl

theorem yields_extractTree (root : Path) (s : Session) :
    (w.extractTree root).Yields s fun b => b.Storable ∧ b.Counted := by
  refine ⟨_, [], reads_extractTree root s, ?_⟩
  intro b hb
  have hvalid := all_of_enriched (Files.wellFormed_extractTree _ _ _ _) hb
    fun r date hr => hr.withCommitDate date
  exact ⟨Batch.WellFormed.storable hvalid,
    (Files.counted_extractTree _ _ _ _).of_ids (ids_of_enriched hb)⟩

theorem storable_of_classified (hw : w.AnswersValid) (h : ∀ r ∈ records, r.Storable)
    {answers : List Record} (hanswers : w.classified records = .ok answers) :
    ∀ r ∈ answers, r.Storable := by
  unfold classified at hanswers
  cases hc : w.classifier with
  | none =>
      rw [hc] at hanswers
      cases hanswers
      exact h
  | some c =>
      simp only [hc] at hanswers
      split at hanswers
      · cases hanswers
        exact h
      · exact (hw c hc).file records answers h hanswers

/-- Classifying the whole workspace stores a batch with counted ids. -/
theorem classifyWorkspace_stores (hw : w.AnswersValid) (root : Path) (s : Session) :
    (w.classifyWorkspace root).Stores w.store s Batch.Counted := by
  have hsave : ∀ (b : Batch) (s : Session), b.Storable ∧ b.Counted →
      Run.Stores (w.store.save b >>= fun _ => pure b) w.store s Batch.Counted := by
    intro b s hb
    exact Run.stores_save (Store.canHold_of_storable hb.1) (hb.2.of_ids (w.store.ids_kept b)) b s
  apply (yields_extractTree root s).stores
  intro b s₁ _ hb _
  cases hc : w.classifier with
  | none => exact hsave b s₁ hb
  | some c =>
      have hanswers : (Batch.numbered <$> Run.askAll c b).Yields s₁
          fun answers => answers.Storable ∧ answers.Counted := by
        refine ⟨_, _, (Run.reads_askAll c b s₁).map Batch.numbered, ?_⟩
        intro answers hanswers
        obtain ⟨own, hown, rfl⟩ := Sequence.map_eq_ok.mp hanswers
        have hvalid := (hw c hc).all b own hb.1 hown
        exact ⟨Batch.All.numbered hvalid fun r i hr => hr.congr rfl rfl, Batch.counted_numbered⟩
      apply hanswers.stores
      intro b' s₂ _ hb' _
      exact hsave b' s₂ hb'

end Workflow

end Marginalia
