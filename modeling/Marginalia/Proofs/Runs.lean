import Marginalia.Proofs.RoundTrip
import Marginalia.Proofs.Validity
import Marginalia.Workspace.Workflow

/-!
Work in a session, taken apart into its steps. All steps but the last one of a workflow only read
what is stored; what they end with, and what they ask a classifier, is said of each of them once.
-/

namespace Marginalia

/-- The later session differs from the earlier one by what was noted, looked up and asked. -/
structure Session.Extends (s s' : Session) (asked : List Question) : Prop where
  files : s'.files = s.files
  memory : s'.memory = s.memory
  questions : s'.questions = s.questions ++ asked

namespace Session.Extends

variable {s s' s'' : Session} {asked asked' : List Question}

theorem refl (s : Session) : s.Extends s [] := ⟨rfl, rfl, (List.append_nil _).symm⟩

theorem trans (h : s.Extends s' asked) (h' : s'.Extends s'' asked') :
    s.Extends s'' (asked ++ asked') := by
  refine ⟨h'.files.trans h.files, h'.memory.trans h.memory, ?_⟩
  rw [h'.questions, h.questions, List.append_assoc]

end Session.Extends

namespace Run

variable {α β : Type} {work : Run α} {next : α → Run β} {s s' : Session} {a : α} {f : Failure}
  {asked asked' : List Question}

theorem bind_of_ok (h : work s = (.ok a, s')) : (work >>= next) s = next a s' := by
  change (ExceptT.bindCont next (work s).1 : StateM Session _) (work s).2 = _
  rw [h]
  rfl

theorem bind_of_error (h : work s = (.error f, s')) : (work >>= next) s = (.error f, s') := by
  change (ExceptT.bindCont next (work s).1 : StateM Session _) (work s).2 = _
  rw [h]
  rfl

theorem map_apply (g : α → β) (work : Run α) (s : Session) :
    (g <$> work) s = (g <$> (work s).1, (work s).2) := by
  rw [← bind_pure_comp]
  rcases hrun : work s with ⟨f | a, s'⟩
  · exact bind_of_error hrun
  · exact bind_of_ok hrun

/-- The work ends with `r` and stores nothing, but asks the questions. -/
def Reads (work : Run α) (s : Session) (r : Except Failure α) (asked : List Question) : Prop :=
  ∃ s', work s = (r, s') ∧ s.Extends s' asked

theorem reads_pure (a : α) (s : Session) : Reads (pure a) s (.ok a) [] := ⟨s, rfl, .refl s⟩

theorem reads_get (s : Session) : Reads get s (.ok s) [] := ⟨s, rfl, .refl s⟩

theorem reads_throw (f : Failure) (s : Session) : Reads (throw f : Run α) s (.error f) [] :=
  ⟨s, rfl, .refl s⟩

theorem reads_note (entries : Log) (s : Session) : (note entries).Reads s (.ok ()) [] :=
  ⟨_, rfl, rfl, rfl, (List.append_nil _).symm⟩

theorem Reads.bind {r : Except Failure β} (h : work.Reads s (.ok a) asked)
    (hnext : ∀ s', s.Extends s' asked → (next a).Reads s' r asked') :
    (work >>= next).Reads s r (asked ++ asked') := by
  obtain ⟨s', hwork, hs'⟩ := h
  obtain ⟨s'', hdone, hs''⟩ := hnext s' hs'
  exact ⟨s'', (bind_of_ok hwork).trans hdone, hs'.trans hs''⟩

theorem Reads.bind_error (h : work.Reads s (.error f) asked) :
    (work >>= next).Reads s (.error f) asked := by
  obtain ⟨s', hwork, hs'⟩ := h
  exact ⟨s', bind_of_error hwork, hs'⟩

theorem reads_noted (log : Log) (r : Except Failure α) (s : Session) :
    (noted (log, r)).Reads s r [] := by
  cases r with
  | ok a => exact (reads_note log s).bind fun s' _ => reads_pure a s'
  | error f => exact (reads_note log s).bind fun s' _ => reads_throw f s'

/-- A question is put before it is answered. -/
theorem reads_asked (q : Question) (log : Log) (r : Except Failure α) (s : Session) :
    Reads (do
      modify fun s => { s with questions := s.questions ++ [q] }
      noted (log, r)) s r [q] := by
  have hmodify : Reads (modify fun (s : Session) => { s with questions := s.questions ++ [q] }) s
      (.ok ()) [q] := ⟨_, rfl, rfl, rfl, rfl⟩
  exact hmodify.bind fun s' _ => reads_noted log r s'

theorem reads_askFile (c : Classifier) (records : List Record) (s : Session) :
    (askFile c records).Reads s (c.file records) [.file records] :=
  reads_asked (.file records) (c.notes (.file records)) (c.file records) s

theorem reads_askAll (c : Classifier) (batch : Batch) (s : Session) :
    (askAll c batch).Reads s (c.all batch) [.all batch] :=
  reads_asked (.all batch) (c.notes (.all batch)) (c.all batch) s

theorem reads_enrich (dates : Dates) (batch : Batch) (s : Session) :
    (enrich dates batch).Reads s (batch.enrich dates).2 [] := by
  have hmodify : Reads
      (modify fun (s : Session) => { s with lookups := s.lookups ++ batch.lookups }) s (.ok ()) [] :=
    ⟨_, rfl, rfl, rfl, (List.append_nil _).symm⟩
  exact hmodify.bind fun s' _ => reads_noted (batch.enrich dates).1 (batch.enrich dates).2 s'

/-- Work goes on where a step has ended. -/
theorem Reads.exists_bind {P : Except Failure β → Session → Prop}
    (h : work.Reads s (.ok a) asked)
    (hnext : ∀ s', s.Extends s' asked → ∃ r t, next a s' = (r, t) ∧ P r t) :
    ∃ r t, (work >>= next) s = (r, t) ∧ P r t := by
  obtain ⟨s', hwork, hs'⟩ := h
  rw [bind_of_ok hwork]
  exact hnext s' hs'

/-- A second step that asks nothing. -/
theorem Reads.andThen {r : Except Failure α} {r' : α → Except Failure β}
    (h : work.Reads s r asked)
    (hnext : ∀ a s', s.Extends s' asked → (next a).Reads s' (r' a) []) :
    (work >>= next).Reads s (r >>= r') asked := by
  cases r with
  | error f => exact h.bind_error
  | ok a =>
      have hboth := h.bind (hnext a)
      rw [List.append_nil] at hboth
      exact hboth

theorem Reads.map {r : Except Failure α} (g : α → β) (h : work.Reads s r asked) :
    (g <$> work).Reads s (g <$> r) asked := by
  rw [← bind_pure_comp, ← bind_pure_comp]
  exact h.andThen fun a s' _ => reads_pure (g a) s'

end Run

/-! ## Loading -/

namespace Store

theorem reads_loadFile (path : Path) (s : Session) :
    (loadFile path).Reads s
      (match s.files.tree.read (s.files.base.join path) with
      | .ok bytes => ofBytes path bytes
      | .error .missing => .ok .empty
      | .error cause => .error (.storeUnreadable path.toText ⟨cause, path.toText⟩)) [] := by
  apply (Run.reads_get s).bind
  intro s' _
  change Run.Reads (match s.files.tree.read (s.files.base.join path) with
    | .ok bytes => Run.noted ([], ofBytes path bytes)
    | .error .missing => do
      Run.note [.debug ("No stored comments at " ++ path.toText)]
      pure .empty
    | .error cause => throw (.storeUnreadable path.toText ⟨cause, path.toText⟩)) s' _ []
  split
  · exact Run.reads_noted [] _ s'
  · exact (Run.reads_note _ s').bind fun s'' _ => Run.reads_pure Batch.empty s''
  · exact Run.reads_throw _ s'

/-- The store holds the same in both sessions. -/
def SameIn : Store → Session → Session → Prop
  | memory, s, s' => s'.memory = s.memory
  | file path, s, s' =>
    s'.files.tree.read (s'.files.base.join path) = s.files.tree.read (s.files.base.join path)

theorem sameIn_of_extends {s s' : Session} {asked : List Question} (store : Store)
    (h : s.Extends s' asked) : store.SameIn s s' := by
  cases store with
  | memory => exact h.memory
  | file path =>
      simp only [SameIn, h.files]

theorem SameIn.trans {store : Store} {s s' s'' : Session} (h : store.SameIn s s')
    (h' : store.SameIn s' s'') : store.SameIn s s'' := by
  cases store with
  | memory => exact Eq.trans h' h
  | file path => exact Eq.trans h' h

/-- What is loaded depends on what is stored and on nothing else. -/
theorem SameIn.load_eq {store : Store} {s s' : Session} (h : store.SameIn s s') :
    (store.load s').1 = (store.load s).1 := by
  cases store with
  | memory => exact congrArg Except.ok h
  | file path =>
      obtain ⟨t, hload, -⟩ := reads_loadFile path s
      obtain ⟨t', hload', -⟩ := reads_loadFile path s'
      change (loadFile path s').1 = (loadFile path s).1
      rw [hload, hload', show _ = _ from h]

/-- Whatever a file store loads is valid. -/
theorem wellFormed_of_loadFile {path : Path} {s : Session} {b : Batch}
    (h : (loadFile path s).1 = .ok b) : b.WellFormed := by
  obtain ⟨t, hload, -⟩ := reads_loadFile path s
  rw [hload] at h
  have hempty : Batch.empty.WellFormed := by
    intro f hf
    cases hf
  split at h
  · unfold ofBytes at h
    split at h
    · cases h
      exact hempty
    · exact Batch.wellFormed_of_ofBytes (Validated.orFail_eq_ok.mp h)
  · cases h
    exact hempty
  · cases h

theorem canHold_of_load {store : Store} {s : Session} {b : Batch}
    (h : (store.load s).1 = .ok b) : store.CanHold b := by
  cases store with
  | memory => trivial
  | file path => exact (wellFormed_of_loadFile h).storable

/-- What has been loaded is kept as it is. -/
theorem kept_of_load {store : Store} {s : Session} {b : Batch}
    (h : (store.load s).1 = .ok b) : store.kept b = b := by
  cases store with
  | memory => rfl
  | file path => exact (wellFormed_of_loadFile h).tidied_eq

theorem CanHold.put {store : Store} {b : Batch} (h : store.CanHold b) (path : Text)
    {records : List Record} (hrecords : ∀ r ∈ records, r.Storable) :
    store.CanHold (b.put path records) := by
  cases store with
  | memory => trivial
  | file file => exact Batch.All.put h hrecords

theorem CanHold.numbered {store : Store} {b : Batch} (h : store.CanHold b) :
    store.CanHold b.numbered := by
  cases store with
  | memory => trivial
  | file file => exact Batch.All.numbered h fun r i hr => hr.congr rfl rfl

/-- Loading only reads. -/
theorem reads_load (store : Store) (s : Session) : store.load.Reads s (store.load s).1 [] := by
  cases store with
  | memory => exact ⟨s, rfl, .refl s⟩
  | file path =>
      obtain ⟨s', hload, hs'⟩ := reads_loadFile path s
      refine ⟨s', ?_, hs'⟩
      change loadFile path s = ((loadFile path s).1, s')
      rw [hload]

end Store

/-! ## Steps of a workflow -/

namespace Batch

variable {b b' : Batch} {dates : Dates} {P : Record → Prop}

theorem dated_eq_or (dates : Dates) (path : Text) (r : Record) :
    dated dates path r = r ∨ ∃ date, dated dates path r = r.withCommitDate date := by
  unfold dated
  split
  · split
    · rename_i date _
      exact .inr ⟨date, rfl⟩
    · exact .inl rfl
  · exact .inl rfl

/-- Filling in dates succeeds with the dated records. -/
theorem eq_of_enrich (h : (b.enrich dates).2 = .ok b') :
    b' = b.mapFiles fun path rs => rs.map (dated dates path) := by
  unfold enrich at h
  cases hfailure : lookupFailure? dates b with
  | some f =>
      rw [hfailure] at h
      cases h
  | none =>
      rw [hfailure] at h
      cases h
      rfl

theorem All.enrich (hb : b.All P) (h : (b.enrich dates).2 = .ok b')
    (hP : ∀ r date, P r → P (r.withCommitDate date)) : b'.All P := by
  rw [eq_of_enrich h]
  apply hb.mapFiles
  intro path rs hrs r hr
  obtain ⟨own, hown, rfl⟩ := List.mem_map.mp hr
  rcases dated_eq_or dates path own with hsame | ⟨date, hdated⟩
  · rw [hsame]
    exact hrs own hown
  · rw [hdated]
    exact hP own date (hrs own hown)

theorem ids_of_enrich (h : (b.enrich dates).2 = .ok b') : b'.ids = b.ids := by
  rw [eq_of_enrich h]
  apply ids_mapFiles
  intro path rs
  rw [List.map_map]
  apply List.map_congr_left
  intro r _
  rcases dated_eq_or dates path r with hsame | ⟨date, hdated⟩
  · rw [Function.comp_apply, hsame]
  · rw [Function.comp_apply, hdated]
    rfl

end Batch

namespace Workflow

variable (w : Workflow)

/-- The batch with the dates that the settings ask for. -/
def enriched (batch : Batch) : Except Failure Batch :=
  if w.settings.enrichCommitDates then (batch.enrich w.dates).2 else .ok batch

/-- What comes of extracting one file. -/
def extracted (files : Files) (file root : Path) : Except Failure (List Record) := do
  let records ← (files.extractFile w.grammar w.settings file (some root) none).2
  let batch ← w.enriched (Batch.ofList [(file.toText, records)])
  .ok ((batch.get? file.toText).getD [])

/-- What comes of classifying some records of one file. -/
def classified (records : List Record) : Except Failure (List Record) :=
  match w.classifier with
  | some c => if records.isEmpty then .ok records else c.file records
  | none => .ok records

/-- What a classifier is asked about some records of one file. -/
def questionsOn (records : List Record) : List Question :=
  if w.classifier.isSome = true ∧ records ≠ [] then [.file records] else []

variable {w}

theorem reads_enrich (batch : Batch) (s : Session) :
    (w.enrich batch).Reads s (w.enriched batch) [] := by
  unfold enrich enriched
  split
  · exact Run.reads_enrich w.dates batch s
  · exact Run.reads_pure batch s

theorem reads_extractTree (root : Path) (s : Session) :
    (w.extractTree root).Reads s
      (w.enriched (s.files.extractTree w.grammar w.settings root).2) [] := by
  apply (Run.reads_get s).bind
  intro s' _
  apply (Run.reads_note _ s').bind
  intro s'' _
  exact reads_enrich _ s''

theorem reads_extractFile (file root : Path) (s : Session) :
    (w.extractFile file root).Reads s (w.extracted s.files file root) [] := by
  apply (Run.reads_get s).bind
  intro s' _
  apply (Run.reads_noted _ _ s').andThen
  intro records t _
  apply (reads_enrich _ t).andThen
  intro batch t' _
  exact Run.reads_pure _ t'

theorem reads_classify (records : List Record) (s : Session) :
    (w.classify records).Reads s (w.classified records) (w.questionsOn records) := by
  unfold classify classified questionsOn
  cases w.classifier with
  | none => exact Run.reads_pure records s
  | some c =>
      cases records with
      | nil => exact Run.reads_pure [] s
      | cons r rs => exact Run.reads_askFile c (r :: rs) s

theorem all_of_enriched {b b' : Batch} {P : Record → Prop} (hb : b.All P)
    (h : w.enriched b = .ok b') (hP : ∀ r date, P r → P (r.withCommitDate date)) : b'.All P := by
  unfold Workflow.enriched at h
  split at h
  · exact hb.enrich h hP
  · cases h
    exact hb

/-- Everything that was extracted from one file is valid, dates or not. -/
theorem wellFormed_of_mem_extracted {files : Files} {file root : Path} {records : List Record}
    (h : w.extracted files file root = .ok records) : ∀ r ∈ records, r.WellFormed := by
  obtain ⟨raw, hraw, h⟩ := Sequence.bind_eq_ok.mp h
  obtain ⟨batch, hbatch, h⟩ := Sequence.bind_eq_ok.mp h
  cases h
  have hraw' : (Batch.ofList [(file.toText, raw)]).All Record.WellFormed :=
    Batch.all_ofList (List.forall_mem_singleton.mpr (Files.wellFormed_of_mem_extractFile hraw))
  have hdated := all_of_enriched hraw' hbatch fun r date hr => hr.withCommitDate date
  exact hdated.get? file.toText

end Workflow

end Marginalia
