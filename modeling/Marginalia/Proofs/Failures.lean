import Marginalia.Proofs.Edits
import Marginalia.Proofs.Enrichment
import Marginalia.Proofs.Fallback
import Marginalia.Proofs.LineEnds

/-!
What the pieces of work fail with. Stores and classifiers fail as such, and the failure of a date or
of an extraction has no name in the library. A file fails by its language, or because it is missing
or cannot be read.
-/

namespace Marginalia

/-! ## Failures of some work -/

namespace Failure

/-- If the failure is one of the library's own, it is of one of the categories or exempt. -/
def Covered (categories : List Category) (exempt : Failure → Prop) (f : Failure) : Prop :=
  f.isA .domainFailure = true → categories.any f.isA = true ∨ exempt f

variable {categories : List Category} {exempt exempt' : Failure → Prop} {c : Category} {f : Failure}

theorem covered_of_isA (hc : c ∈ categories) (h : f.isA c = true) : f.Covered categories exempt :=
  fun _ => .inl (List.any_eq_true.mpr ⟨c, hc, h⟩)

theorem covered_of_foreign (h : f.isA .domainFailure = false) : f.Covered categories exempt :=
  fun hown => nomatch h.symm.trans hown

theorem Covered.imp (h : f.Covered categories exempt) (himp : exempt f → exempt' f) :
    f.Covered categories exempt' :=
  fun hown => (h hown).imp_right himp

end Failure

namespace Run

variable {α β : Type} {work : Run α} {next : α → Run β} {s : Session} {P : Failure → Prop}
  {Q : Failure → Prop} {r : Except Failure α} {asked : List Question}

/-- Whatever the work fails with satisfies `P`. -/
def FailsWith (work : Run α) (s : Session) (P : Failure → Prop) : Prop :=
  ∀ f s', work s = (.error f, s') → P f

theorem Reads.failsWith (h : work.Reads s r asked) (hr : ∀ f, r = .error f → P f) :
    work.FailsWith s P := by
  obtain ⟨t, hrun, -⟩ := h
  intro f s' hfail
  exact hr f (congrArg Prod.fst (hrun.symm.trans hfail))

theorem FailsWith.imp (h : work.FailsWith s P) (himp : ∀ f, P f → Q f) : work.FailsWith s Q :=
  fun f s' hrun => himp f (h f s' hrun)

theorem FailsWith.bind (h : work.FailsWith s P)
    (hnext : ∀ a s', work s = (.ok a, s') → (next a).FailsWith s' P) :
    (work >>= next).FailsWith s P := by
  intro f s' hrun
  rcases hwork : work s with ⟨own | a, t⟩
  · cases (bind_of_error hwork).symm.trans hrun
    exact h f s' hwork
  · rw [bind_of_ok hwork] at hrun
    exact hnext a t hwork f s' hrun

theorem failsWith_get_bind {next : Session → Run α} (h : (next s).FailsWith s P) :
    FailsWith (get >>= next) s P := by
  have hget : (get >>= next) s = next s s := bind_of_ok rfl
  intro f s' hrun
  exact h f s' (hget.symm.trans hrun)

theorem failsWith_pure (a : α) (s : Session) : FailsWith (pure a) s P :=
  (reads_pure a s).failsWith fun _ h => nomatch h

theorem FailsWith.map (h : work.FailsWith s P) (g : α → β) : (g <$> work).FailsWith s P := by
  rw [← bind_pure_comp]
  exact h.bind fun a s' _ => failsWith_pure (g a) s'

end Run

/-! ## Reading and extracting -/

/-- What keeps the look of the text from standing in for a tree has no name in the library. -/
theorem Source.isA_of_extract {s : Source} {grammar : Grammar} {settings : Settings} {f : Failure}
    (h : (s.extract grammar settings).2 = .error f) : f.isA .domainFailure = false := by
  unfold extract at h
  cases hgrammar : s.recordsByGrammar grammar settings with
  | ok records =>
      rw [hgrammar] at h
      cases h
  | error own =>
      obtain ⟨o, ho⟩ : ∃ o, s.Meets grammar settings o := by
        by_contra hnone
        obtain ⟨records, hrecords⟩ := exists_recordsByGrammar fun o ho => hnone ⟨o, ho⟩
        cases hrecords.symm.trans hgrammar
      cases ho.recordsByGrammar_eq.symm.trans hgrammar
      simp only [hgrammar] at h
      cases hnote : s.fallbackNote? (s.failureAt settings o) with
      | some note =>
          obtain ⟨records, hrecords, -⟩ := s.exists_recordsByTokens
          simp only [hnote, hrecords] at h
          cases h
      | none =>
          have havoided := isSome_fallbackNote?_failureAt s settings o
          simp only [hnote] at h havoided
          cases h
          cases o with
          | broken reason => rfl
          | rowMissing => rfl
          | _ => cases havoided

namespace Files

/-- The file is of a known language and is there, but cannot be read. -/
def IsUnreadable (files : Files) (p : Path) (language : Option Text) (f : Failure) : Prop :=
  ∃ l cause, Language.resolve language (some p) = .ok l ∧
    files.tree.read (files.base.join p) = .error cause ∧ cause ≠ .missing ∧
    f = .unreadable p.toText ⟨cause, p.toText⟩

variable {files : Files} {p : Path} {language : Option Text} {f : Failure}

theorem IsUnreadable.category_eq (h : files.IsUnreadable p language f) :
    f.category = .unreadableEntry := by
  obtain ⟨l, cause, -, -, -, rfl⟩ := h
  rfl

theorem readSource_of_refused {l : Language} {cause : SystemCause}
    (hl : Language.resolve language (some p) = .ok l)
    (hread : files.tree.read (files.base.join p) = .error cause) :
    files.readSource p language = .error
      (if cause = .missing then .fileMissing p.toText
      else .unreadable p.toText ⟨cause, p.toText⟩) := by
  rw [readSource, hl, hread]
  cases cause <;> rfl

theorem readSource_of_isUnreadable (h : files.IsUnreadable p language f) :
    files.readSource p language = .error f := by
  obtain ⟨l, cause, hl, hread, hcause, rfl⟩ := h
  rw [readSource_of_refused hl hread, if_neg hcause]

theorem covered_of_readSource {categories : List Category}
    (hlanguage : .unsupportedLanguage ∈ categories) (h : files.readSource p language = .error f) :
    f.Covered categories (files.IsUnreadable p language) := by
  cases hl : Language.resolve language (some p) with
  | error e =>
      cases (readSource_of_error hl).symm.trans h
      exact Failure.covered_of_isA hlanguage rfl
  | ok l =>
      cases hread : files.tree.read (files.base.join p) with
      | ok bytes => cases (readSource_of_read hread hl).symm.trans h
      | error cause =>
          cases (readSource_of_refused hl hread).symm.trans h
          split
          · exact Failure.covered_of_foreign rfl
          · rename_i hcause
            exact fun _ => .inr ⟨l, cause, hl, hread, hcause, rfl⟩

theorem covered_of_extractFile {categories : List Category} {grammar : Grammar}
    {settings : Settings} {root : Option Path} (hlanguage : .unsupportedLanguage ∈ categories)
    (h : (files.extractFile grammar settings p root language).2 = .error f) :
    f.Covered categories (files.IsUnreadable p language) := by
  unfold extractFile at h
  cases hsource : files.readSource p language with
  | error own =>
      rw [hsource] at h
      cases h
      exact covered_of_readSource hlanguage hsource
  | ok s =>
      rw [hsource] at h
      cases hextract : (s.extract grammar settings).2 with
      | ok records =>
          simp only [hextract] at h
          cases h
      | error own =>
          simp only [hextract] at h
          cases h
          exact Failure.covered_of_foreign (Source.isA_of_extract hextract)

theorem extractFile_of_isUnreadable {grammar : Grammar} {settings : Settings} {root : Option Path}
    (h : files.IsUnreadable p language f) :
    (files.extractFile grammar settings p root language).2 = .error f := by
  rw [extractFile, readSource_of_isUnreadable h]

end Files

/-! ## Dates, stores and classifiers -/

theorem Blame.isA_domain_of_date {tree : FileTree} {base : Path}
    {history : Text → Int → Option Outcome} {path : Text} {line : Int} {f : Failure}
    (h : (dates tree base history path line).date = .error f) :
    f.isA .domainFailure = false := by
  rw [dates_date] at h
  cases htold : told? history path line with
  | none =>
      rw [htold] at h
      cases h
  | some seconds =>
      simp only [htold, writtenTime] at h
      split at h
      · cases h
        rfl
      · split at h
        · cases h
          rfl
        · cases h

namespace Store

variable {store : Store} {s s' : Session} {b : Batch} {f : Failure} {categories : List Category}
  {exempt : Failure → Prop}

theorem isA_of_load (h : (store.load s).1 = .error f) : f.isA .storeFailure = true := by
  cases store with
  | memory => cases h
  | file path =>
      obtain ⟨t, hload, -⟩ := reads_loadFile path s
      change (loadFile path s).1 = .error f at h
      rw [hload] at h
      split at h
      · unfold ofBytes at h
        split at h
        · cases h
        · rename_i bytes _ _
          cases hbytes : Batch.ofBytes bytes with
          | valid b =>
              rw [hbytes] at h
              cases h
          | invalid issues =>
              rw [hbytes] at h
              cases h
              rfl
      · cases h
      · cases h
        rfl

theorem isA_of_save (h : store.save b s = (.error f, s')) : f.isA .storeFailure = true := by
  cases store with
  | memory => cases h
  | file path =>
      change saveFile path b s = (.error f, s') at h
      rw [saveFile_eq] at h
      split at h
      · cases h
      · cases h
        rfl

theorem failsWith_load (hstore : .storeFailure ∈ categories) (store : Store) (s : Session) :
    store.load.FailsWith s (Failure.Covered categories exempt) :=
  (store.reads_load s).failsWith fun _ h => Failure.covered_of_isA hstore (isA_of_load h)

theorem isA_of_replace (h : store.replace b s = (.error f, s')) : f.isA .storeFailure = true := by
  cases store with
  | memory => cases h
  | file path => exact isA_of_save (show (file path).save b s = (.error f, s') from h)

theorem isA_of_editNamed {id : Int} {level : Option Level} {tags : Option (List Text)}
    (h : b.editNamed id (level.map Level.name) tags = .error f) : f.isA .storeFailure = true := by
  rw [Batch.editNamed_of_level] at h
  split at h
  · cases h
  · cases h
    rfl

theorem failsWith_update (hstore : .storeFailure ∈ categories) (store : Store) (id : Int)
    (level : Option Level) (tags : Option (List Text)) (s : Session) :
    (store.update id (level.map Level.name) tags).FailsWith s
      (Failure.Covered categories exempt) := by
  rw [update_eq]
  apply (failsWith_load hstore store s).bind
  intro b s₁ _
  apply ((Run.reads_noted [] _ s₁).failsWith fun f h =>
    Failure.covered_of_isA hstore (isA_of_editNamed h)).bind
  intro found s₂ _
  refine Run.FailsWith.bind ?_ fun _ s₃ _ => Run.failsWith_pure found.2 s₃
  exact fun f s' h => Failure.covered_of_isA hstore (isA_of_replace h)

end Store

theorem Response.isA_of_read {α : Type} {url : Text} {read : Json → Validated α}
    {response : Response} {f : Failure} (h : response.read url read = .error f) :
    f.isA .classifierFailure = true := by
  unfold Response.read at h
  split at h
  · cases h
    rfl
  · rename_i status body
    split at h
    · cases hbody : body.readJson read with
      | valid a =>
          rw [hbody] at h
          cases h
      | invalid issues =>
          rw [hbody] at h
          cases h
          rfl
    · cases h
      rfl

/-! ## Workflows -/

/-- Whatever the classifier fails with is a failure of classifiers. -/
structure Classifier.FailsAsSuch (c : Classifier) : Prop where
  file : ∀ rs f, c.file rs = .error f → f.isA .classifierFailure = true
  all : ∀ b f, c.all b = .error f → f.isA .classifierFailure = true

theorem Classifier.remote_failsAsSuch (address : Text) (send : Request → Response) :
    (remote address send).FailsAsSuch := by
  constructor
  · intro rs f h
    simp only [remote] at h
    split at h
    · cases h
    · exact Response.isA_of_read h
  · intro b f h
    exact Response.isA_of_read h

namespace Workflow

/-- The dates come from a version history, and a classifier fails as such. -/
structure Regular (w : Workflow) : Prop where
  dates : ∃ tree base history, w.dates = Blame.dates tree base history
  classifier : ∀ c, w.classifier = some c → c.FailsAsSuch

variable {w : Workflow} {categories : List Category} {exempt : Failure → Prop} {s : Session}
  {f : Failure}

theorem isA_of_enriched {b : Batch} (hw : w.Regular) (h : w.enriched b = .error f) :
    f.isA .domainFailure = false := by
  obtain ⟨tree, base, history, hdates⟩ := hw.dates
  unfold enriched at h
  split at h
  · rw [hdates] at h
    obtain ⟨path, line, -, hdate⟩ := Batch.exists_of_enrich_error h
    exact Blame.isA_domain_of_date hdate
  · cases h

theorem isA_of_classified {records : List Record} (hw : w.Regular)
    (h : w.classified records = .error f) : f.isA .classifierFailure = true := by
  unfold classified at h
  split at h
  · rename_i c hc
    split at h
    · cases h
    · exact (hw.classifier c hc).file records f h
  · cases h

theorem isA_of_answered {pending : Batch} (hw : w.Regular) (h : w.answered pending = .error f) :
    f.isA .classifierFailure = true := by
  unfold answered at h
  split at h
  · rename_i c hc
    split at h
    · cases h
    · exact (hw.classifier c hc).all pending f h
  · cases h

theorem covered_of_extracted {files : Files} {file root : Path} (hw : w.Regular)
    (hlanguage : .unsupportedLanguage ∈ categories) (h : w.extracted files file root = .error f) :
    f.Covered categories (files.IsUnreadable file none) := by
  unfold extracted at h
  cases hraw : (files.extractFile w.grammar w.settings file (some root) none).2 with
  | error own =>
      rw [hraw] at h
      cases h
      exact Files.covered_of_extractFile hlanguage hraw
  | ok raw =>
      rw [hraw] at h
      cases hdated : w.enriched (Batch.ofList [(file.toText, raw)]) with
      | error own =>
          simp only [bind, Except.bind, hdated] at h
          cases h
          exact Failure.covered_of_foreign (isA_of_enriched hw hdated)
      | ok batch =>
          simp only [bind, Except.bind, hdated] at h
          cases h

theorem failsWith_extractTree (hw : w.Regular) (root : Path) (s : Session) :
    (w.extractTree root).FailsWith s (Failure.Covered categories exempt) :=
  (reads_extractTree root s).failsWith fun _ h => Failure.covered_of_foreign (isA_of_enriched hw h)

theorem failsWith_save {α : Type} (hstore : .storeFailure ∈ categories) (b : Batch) (a : α)
    (s : Session) : Run.FailsWith (w.store.save b >>= fun _ => pure a) s
      (Failure.Covered categories exempt) := by
  refine Run.FailsWith.bind ?_ fun _ s' _ => Run.failsWith_pure a s'
  exact fun f s' h => Failure.covered_of_isA hstore (Store.isA_of_save h)

theorem failsWith_classifyWorkspace (hw : w.Regular) (root : Path) (s : Session)
    (hclassifier : .classifierFailure ∈ categories) (hstore : .storeFailure ∈ categories) :
    (w.classifyWorkspace root).FailsWith s (Failure.Covered categories exempt) := by
  apply (failsWith_extractTree hw root s).bind
  intro b s₁ _
  cases hc : w.classifier with
  | none => exact failsWith_save hstore b b s₁
  | some c =>
      have hask : (Batch.numbered <$> Run.askAll c b).FailsWith s₁
          (Failure.Covered categories exempt) :=
        ((Run.reads_askAll c b s₁).failsWith fun f h =>
          Failure.covered_of_isA hclassifier ((hw.classifier c hc).all b f h)).map Batch.numbered
      exact hask.bind fun b' s₂ _ => failsWith_save hstore b' b' s₂

theorem failsWith_updateWorkspace (hw : w.Regular) (root : Path) (s : Session)
    (hclassifier : .classifierFailure ∈ categories) (hstore : .storeFailure ∈ categories) :
    (w.updateWorkspace root).FailsWith s (Failure.Covered categories exempt) := by
  apply (failsWith_extractTree hw root s).bind
  intro current s₁ _
  apply (Store.failsWith_load hstore w.store s₁).bind
  intro stored s₂ _
  have hask : (w.classifyPending (toClassify stored current)).FailsWith s₂
      (Failure.Covered categories exempt) :=
    (reads_classifyPending (w := w) _ s₂).failsWith fun f h =>
      Failure.covered_of_isA hclassifier (isA_of_answered hw h)
  exact hask.bind fun answers s₃ _ => failsWith_save hstore _ _ s₃

theorem failsWith_updateFile (hw : w.Regular) (path root : Path) (s : Session)
    (hclassifier : .classifierFailure ∈ categories) (hstore : .storeFailure ∈ categories)
    (hlanguage : .unsupportedLanguage ∈ categories) :
    (w.updateFile path root).FailsWith s
      (Failure.Covered categories (s.files.IsUnreadable (s.files.resolve path) none)) := by
  apply Run.failsWith_get_bind
  apply ((reads_extractFile _ root s).failsWith fun f h =>
    covered_of_extracted hw hlanguage h).bind
  intro fresh s₁ _
  apply (Store.failsWith_load hstore w.store s₁).bind
  intro stored s₂ _
  refine Run.FailsWith.bind ((Run.reads_note _ s₂).failsWith fun _ h => nomatch h) ?_
  intro _ s₃ _
  apply ((reads_classify _ s₃).failsWith fun f h =>
    Failure.covered_of_isA hclassifier (isA_of_classified hw h)).bind
  intro answers s₄ _
  exact failsWith_save hstore _ _ s₄

theorem updateFile_of_isUnreadable {path root : Path}
    (h : s.files.IsUnreadable (s.files.resolve path) none f) :
    ∃ s', w.updateFile path root s = (.error f, s') := by
  have hextract : w.extracted s.files (s.files.resolve path) root = .error f := by
    rw [extracted, Files.extractFile_of_isUnreadable h]
    rfl
  obtain ⟨s', hrun, -⟩ := reads_extractFile (w := w) (s.files.resolve path) root s
  rw [hextract] at hrun
  have hget : (get : Run Session) s = (.ok s, s) := rfl
  refine ⟨s', ?_⟩
  unfold updateFile
  rw [Run.bind_of_ok hget]
  exact Run.bind_of_error hrun

end Workflow

end Marginalia
