import Marginalia.Proofs.Edits
import Marginalia.Proofs.Labels
import Marginalia.Proofs.Sessions

/-!
The labels of an edit by hand. Whatever updates come after it, the records of that content in that
file go on to have them, and the classifier is not asked about them, as long as every update that
extracts the file finds the content in it and no update of a workspace drops the file.
-/

namespace Marginalia

/-! ## Records of one content -/

/-- There are records with the content, and all of them have these labels. -/
structure Record.Pinned (content : Text) (label : List Text × Level) (rs : List Record) : Prop where
  known : content ∈ rs.map Record.content
  label_eq : ∀ r ∈ rs, r.content = content → r.label = label

namespace Record.Pinned

variable {content : Text} {label : List Text × Level} {old fresh known more saved : List Record}
  {store : Store}

theorem labels? (h : Pinned content label old) : Reconciliation.labels? old content = some label := by
  obtain ⟨own, hown⟩ := Reconciliation.exists_labels?_iff.mpr h.known
  obtain ⟨r, hr, hcontent, rfl⟩ := Reconciliation.exists_of_labels? hown
  rw [hown, h.label_eq r hr hcontent]

/-- What is known of the content is kept with its labels. -/
theorem preserved (h : Pinned content label old) (hfresh : content ∈ fresh.map Record.content) :
    Pinned content label (Reconciliation.separate old fresh).preserved := by
  constructor
  · exact Reconciliation.exists_labels?_iff.mp
      ⟨label, Reconciliation.labels?_preserved hfresh h.labels?⟩
  · intro r hr hcontent
    obtain ⟨own, -, label', hlabel', rfl⟩ := Reconciliation.mem_preserved_iff.mp hr
    have hown : own.content = content := hcontent
    rw [hown, h.labels?] at hlabel'
    cases hlabel'
    rfl

theorem not_mem_toReclassify (h : Pinned content label old) :
    ∀ r ∈ (Reconciliation.separate old fresh).toReclassify, r.content ≠ content := by
  intro r hr hcontent
  rw [Reconciliation.toReclassify_separate] at hr
  obtain ⟨own, hown, rfl⟩ := List.mem_map.mp hr
  have hnew := (List.mem_filter.mp hown).2
  have hsame : own.content = content := hcontent
  rw [hsame, decide_eq_true h.known] at hnew
  cases hnew

theorem append (h : Pinned content label known) (hmore : ∀ r ∈ more, r.content ≠ content) :
    Pinned content label (known ++ more) := by
  constructor
  · rw [List.map_append]
    exact List.mem_append_left _ h.known
  · intro r hr hcontent
    rcases List.mem_append.mp hr with hknown | hnew
    · exact h.label_eq r hknown hcontent
    · exact absurd hcontent (hmore r hnew)

/-- What a store keeps of the records, if it keeps those of that content as they are. -/
theorem of_keepsAs (h : Pinned content label known)
    (hkeeps : ∀ r ∈ known, r.content = content → store.Keeps r)
    (hsaved : store.KeepsAs known saved) : Pinned content label saved := by
  have hcontent : ∀ r, (store.tidy r).content = r.content := by
    cases store <;> exact fun _ => rfl
  constructor
  · obtain ⟨own, hown, rfl⟩ := List.mem_map.mp h.known
    have hmem : (store.tidy own).withId 0 ∈ saved.map fun r => r.withId 0 :=
      hsaved ▸ List.mem_map.mpr ⟨own, hown, rfl⟩
    obtain ⟨r, hr, hsame⟩ := List.mem_map.mp hmem
    have hr' : (r.withId 0).content = ((store.tidy own).withId 0).content := by rw [hsame]
    exact List.mem_map.mpr ⟨r, hr, hr'.trans (hcontent own)⟩
  · intro r hr hr'
    have hmem : r.withId 0 ∈ known.map fun r => (store.tidy r).withId 0 :=
      hsaved ▸ List.mem_map.mpr ⟨r, hr, rfl⟩
    obtain ⟨own, hown, hsame⟩ := List.mem_map.mp hmem
    have hown' : own.content = content := by
      have hsame' : ((store.tidy own).withId 0).content = (r.withId 0).content := by rw [hsame]
      exact ((hcontent own).symm.trans hsame').trans hr'
    rw [Store.tidy_of_keeps (hkeeps own hown hown')] at hsame
    rw [← h.label_eq own hown hown']
    exact (congrArg Record.label hsame).symm

theorem of_sameButIds (h : Pinned content label known) (hsaved : SameButIds saved known) :
    Pinned content label saved := by
  have hkeeps : ∀ r ∈ known, r.content = content → Store.memory.Keeps r := fun _ _ _ => trivial
  exact h.of_keepsAs hkeeps hsaved

end Record.Pinned

/-- The batch has records with the content under the path, and all of them have these labels. -/
def Batch.Pins (b : Batch) (key content : Text) (label : List Text × Level) : Prop :=
  Record.Pinned content label ((b.get? key).getD [])

namespace Batch.Pins

variable {stored answers : Batch} {key content file : Text} {label : List Text × Level}
  {fresh known more records : List Record} {store : Store}

theorem exists_get? (h : stored.Pins key content label) :
    ∃ rs, stored.get? key = some rs ∧ Record.Pinned content label rs := by
  unfold Pins at h
  cases hget : stored.get? key with
  | none =>
      rw [hget] at h
      cases h.known
  | some rs =>
      rw [hget] at h
      exact ⟨rs, rfl, h⟩

/-- After an update the content has its labels again: it was known, and the answers are about other
contents. -/
theorem of_known (h : stored.Pins key content label) (hstored : stored.All store.Keeps)
    (hfresh : content ∈ fresh.map Record.content) (hvalid : ∀ r ∈ fresh, r.WellFormed)
    (hmore : ∀ r ∈ more, r.content ≠ content) {b : Batch}
    (hget : b.get? key = some ((stored.against key fresh).preserved ++ more)) :
    (store.kept b.numbered).Pins key content label := by
  have hknown : Record.Pinned content label (stored.against key fresh).preserved :=
    h.preserved hfresh
  obtain ⟨saved, hsaved, hkept⟩ := Store.exists_get?_kept hget
  rw [Pins, hsaved]
  refine (hknown.append hmore).of_keepsAs (fun r hr hcontent => ?_) hkept
  rcases List.mem_append.mp hr with hold | hnew
  · exact Store.keeps_preserved (hstored.get? key) hvalid r hold
  · exact absurd hcontent (hmore r hnew)

theorem of_put_of_ne (h : stored.Pins key content label) (hstored : stored.All store.Keeps)
    (hne : key ≠ file) : (store.kept (stored.put file records).numbered).Pins key content label := by
  obtain ⟨rs, hrs, hpinned⟩ := h.exists_get?
  have hsame : ((store.kept (stored.put file records).numbered).get? key).map
      (List.map fun r => r.withId 0) = (stored.get? key).map (List.map fun r => r.withId 0) :=
    Store.map_get?_kept_put_of_ne (fun _ _ => rfl) (Store.kept_of_keeps hstored) hne
  rw [hrs] at hsame
  obtain ⟨saved, hsaved, hsame⟩ := Option.map_eq_some_iff.mp hsame
  rw [Pins, hsaved]
  exact hpinned.of_sameButIds hsame

end Batch.Pins

/-! ## What is sent and answered -/

/-- What a question sends of which file, where `file` is the one at hand. -/
def Question.sent (file : Text) : Question → List FileRecords
  | .file records => [(file, records)]
  | .all batch => batch.files

/-- The records have no such content. -/
def Spares (key content : Text) (sent : List FileRecords) : Prop :=
  ∀ f ∈ sent, f.1 = key → ∀ r ∈ f.2, r.content ≠ content

/-- The answers about a file have no contents but those of the records of it that were sent. -/
structure Classifier.AnswersSent (c : Classifier) : Prop where
  file : ∀ rs answers, c.file rs = .ok answers →
    ∀ a ∈ answers, a.content ∈ rs.map Record.content
  all : ∀ b answers : Batch, c.all b = .ok answers → ∀ path, ∀ a ∈ (answers.get? path).getD [],
    a.content ∈ ((b.get? path).getD []).map Record.content

/-- The store pins the labels of a content in one of its files. -/
def Store.Pins (store : Store) (key content : Text) (label : List Text × Level) (s : Session) :
    Prop :=
  ∃ b, (store.load s).1 = .ok b ∧ b.Pins key content label

theorem Store.Pins.sameIn {store : Store} {key content : Text} {label : List Text × Level}
    {s s' : Session} (h : store.Pins key content label s) (hsame : store.SameIn s s') :
    store.Pins key content label s' := by
  obtain ⟨b, hload, hpins⟩ := h
  exact ⟨b, hsame.load_eq.trans hload, hpins⟩

namespace Workflow

variable {w : Workflow} {key content : Text} {label : List Text × Level} {path root : Path}
  {s s' : Session} {stored current answers : Batch} {records fresh : List Record}
  {asked : List Question}

/-- The classifier, if there is one, answers what it is sent, with valid records. -/
structure AnswersSent (w : Workflow) : Prop where
  valid : w.AnswersValid
  sent : ∀ c, w.classifier = some c → c.AnswersSent

theorem AnswersSent.classified (hw : w.AnswersSent) {answers : List Record}
    (h : w.classified records = .ok answers) :
    ∀ a ∈ answers, a.content ∈ records.map Record.content := by
  unfold Workflow.classified at h
  split at h
  · rename_i c hc
    split at h
    · cases h
      exact fun a ha => List.mem_map_of_mem ha
    · exact (hw.sent c hc).file records answers h
  · cases h
    exact fun a ha => List.mem_map_of_mem ha

theorem AnswersSent.answered (hw : w.AnswersSent) {pending : Batch}
    (h : w.answered pending = .ok answers) (path : Text) :
    ∀ a ∈ (answers.get? path).getD [],
      a.content ∈ ((pending.get? path).getD []).map Record.content := by
  unfold Workflow.answered at h
  split at h
  · rename_i c hc
    split at h
    · cases h
      exact fun a ha => List.mem_map_of_mem ha
    · exact (hw.sent c hc).all pending answers h path
  · cases h
    exact fun a ha => List.mem_map_of_mem ha

theorem AnswersSent.ne_of_classified (hw : w.AnswersSent)
    (hsent : ∀ r ∈ records, r.content ≠ content) {answers : List Record}
    (h : w.classified records = .ok answers) : ∀ a ∈ answers, a.content ≠ content := by
  intro a ha hcontent
  obtain ⟨r, hr, hsame⟩ := List.mem_map.mp (hw.classified h a ha)
  exact hsent r hr (hsame.trans hcontent)

theorem AnswersSent.ne_of_answered (hw : w.AnswersSent) {pending : Batch}
    (hsent : ∀ r ∈ (pending.get? key).getD [], r.content ≠ content)
    (h : w.answered pending = .ok answers) :
    ∀ a ∈ (answers.get? key).getD [], a.content ≠ content := by
  intro a ha hcontent
  obtain ⟨r, hr, hsame⟩ := List.mem_map.mp (hw.answered h key a ha)
  exact hsent r hr (hsame.trans hcontent)

/-! ## One update -/

theorem ne_of_mem_toClassify (h : stored.Pins key content label) :
    ∀ r ∈ ((toClassify stored current).get? key).getD [], r.content ≠ content := by
  intro r hr
  cases hsent : (toClassify stored current).get? key with
  | none =>
      rw [hsent] at hr
      cases hr
  | some rs =>
      obtain ⟨fresh, -, rfl, -⟩ := get?_toClassify_eq_some_iff.mp hsent
      rw [hsent] at hr
      exact Record.Pinned.not_mem_toReclassify h r hr

theorem spares_questionsOn {file : Text} (h : file = key → ∀ r ∈ records, r.content ≠ content) :
    Spares key content ((w.questionsOn records).flatMap (Question.sent file)) := by
  intro f hf hkey
  obtain ⟨q, hq, hf⟩ := List.mem_flatMap.mp hf
  unfold questionsOn at hq
  split at hq
  · cases List.mem_singleton.mp hq
    cases List.mem_singleton.mp hf
    exact h hkey
  · cases hq

theorem spares_questionsAbout {pending : Batch} {file : Text}
    (h : ∀ r ∈ (pending.get? key).getD [], r.content ≠ content) :
    Spares key content ((w.questionsAbout pending).flatMap (Question.sent file)) := by
  rintro ⟨path, rs⟩ hf rfl
  obtain ⟨q, hq, hf⟩ := List.mem_flatMap.mp hf
  unfold questionsAbout at hq
  split at hq
  · cases List.mem_singleton.mp hq
    rw [Batch.get?_eq_some_iff.mpr hf] at h
    exact h
  · cases hq

theorem updateFile_pins (hw : w.AnswersSent) (hpins : w.store.Pins key content label s)
    (hfound : (s.files.resolve path).toText = key →
      ∀ fresh, w.extracted s.files (s.files.resolve path) root = .ok fresh →
        content ∈ fresh.map Record.content)
    {r : Except Failure Reconciliation} (hrun : w.updateFile path root s = (r, s'))
    (hasked : s'.questions = s.questions ++ asked) :
    w.store.Pins key content label s' ∧
      Spares key content (asked.flatMap (Question.sent (s.files.resolve path).toText)) := by
  obtain ⟨before, hload, hbefore⟩ := id hpins
  have hend := w.fileUpdate_of_eq hrun
  -- Whatever is asked about the file itself leaves out the content, which was known.
  have hspares : ∀ {stored fresh}, w.ReadsFile (s.files.resolve path) root s stored fresh →
      (s.files.resolve path).toText = key →
      ∀ r ∈ (stored.against (s.files.resolve path).toText fresh).toReclassify,
        r.content ≠ content := by
    rintro stored fresh hread rfl
    cases hload.symm.trans hread.load
    exact Record.Pinned.not_mem_toReclassify hbefore
  cases hend with
  | unread _ hs =>
      obtain rfl : asked = [] := List.append_cancel_left (hasked.symm.trans hs.questions)
      exact ⟨hpins.sameIn (Store.sameIn_of_extends w.store hs), fun _ => nofun⟩
  | unclassified hread _ hs =>
      obtain rfl := List.append_cancel_left (hasked.symm.trans hs.questions)
      exact ⟨hpins.sameIn (Store.sameIn_of_extends w.store hs), spares_questionsOn (hspares hread)⟩
  | @saving stored fresh answers _ _ _ hread hanswers _ _ =>
      cases hload.symm.trans hread.load
      have hsaves := w.updateFile_saves hread hanswers (hread.storable_answers hw.valid hanswers)
      obtain ⟨hasked', hend⟩ := hsaves.of_eq hrun
      obtain rfl := List.append_cancel_left (hasked.symm.trans hasked')
      refine ⟨?_, spares_questionsOn (hspares hread)⟩
      rcases hend with ⟨_, after, -, hafter, -, rfl⟩ | ⟨f, -, hsame⟩
      · refine ⟨_, hafter, ?_⟩
        by_cases hkey : (s.files.resolve path).toText = key
        · have hmore := hw.ne_of_classified (hspares hread hkey) hanswers
          subst hkey
          exact hbefore.of_known (Store.keeps_of_load hload) (hfound rfl _ hread.extracted)
            hread.wellFormed hmore Batch.get?_put_self
        · exact hbefore.of_put_of_ne (Store.keeps_of_load hload) (Ne.symm hkey)
      · exact hpins.sameIn hsame

theorem updateWorkspace_pins (hw : w.AnswersSent) (hpins : w.store.Pins key content label s)
    {r : Except Failure (List (Text × Reconciliation))}
    (hfound : ∀ current, (w.extractTree root s).1 = .ok current →
      (∀ fresh, current.get? key = some fresh → content ∈ fresh.map Record.content) ∧
      (r.isOk = true → (current.get? key).isSome = true))
    (hrun : w.updateWorkspace root s = (r, s'))
    (hasked : s'.questions = s.questions ++ asked) {file : Text} :
    w.store.Pins key content label s' ∧
      Spares key content (asked.flatMap (Question.sent file)) := by
  obtain ⟨before, hload, hbefore⟩ := id hpins
  have hend := workspaceUpdate_of_eq hrun
  cases hend with
  | unread _ hs =>
      obtain rfl : asked = [] := List.append_cancel_left (hasked.symm.trans hs.questions)
      exact ⟨hpins.sameIn (Store.sameIn_of_extends w.store hs), fun _ => nofun⟩
  | unclassified hread _ hs =>
      cases hload.symm.trans hread.load
      obtain rfl := List.append_cancel_left (hasked.symm.trans hs.questions)
      exact ⟨hpins.sameIn (Store.sameIn_of_extends w.store hs),
        spares_questionsAbout (ne_of_mem_toClassify hbefore)⟩
  | @saving stored current answers _ _ _ hread hanswers _ _ =>
      cases hload.symm.trans hread.load
      have hsaves := updateWorkspace_saves hread hanswers
        (storable_of_answered hw.valid hread.wellFormed hanswers)
      obtain ⟨hasked', hend⟩ := hsaves.of_eq hrun
      obtain rfl := List.append_cancel_left (hasked.symm.trans hasked')
      refine ⟨?_, spares_questionsAbout (ne_of_mem_toClassify hbefore)⟩
      rcases hend with ⟨results, after, hok, hafter, -, rfl⟩ | ⟨f, -, hsame⟩
      · refine ⟨_, hafter, ?_⟩
        obtain ⟨hcontent, hthere⟩ :=
          hfound current ((w.extractTree_fst root s).trans hread.extracted)
        obtain ⟨fresh, hfresh⟩ := Option.isSome_iff_exists.mp (hthere (congrArg Except.isOk hok))
        -- What is stored behind the known records: the answers, or what there was to classify.
        have hmore : ∀ a ∈ (answers.get? key).getD (before.against key fresh).toReclassify,
            a.content ≠ content := by
          have hown := hw.ne_of_answered (ne_of_mem_toClassify hbefore) hanswers
          cases hget : answers.get? key with
          | none => exact Record.Pinned.not_mem_toReclassify hbefore
          | some own =>
              rw [hget] at hown
              exact hown
        have hvalid : ∀ r ∈ fresh, r.WellFormed :=
          hread.wellFormed _ (Batch.get?_eq_some_iff.mp hfresh)
        refine hbefore.of_known (Store.keeps_of_load hload) (hcontent fresh hfresh) hvalid hmore ?_
        rw [Batch.get?_mapFiles, hfresh, Option.map_some]
        rfl
      · exact hpins.sameIn hsame

end Workflow

/-! ## One edit -/

/-- Another record in the place of one, if neither of them has the content. -/
theorem Record.Pinned.replace {content : Text} {label : List Text × Level}
    {before behind : List Record} {r edited : Record}
    (h : Pinned content label (before ++ r :: behind)) (hr : r.content ≠ content)
    (hedited : edited.content ≠ content) :
    Pinned content label (before ++ edited :: behind) := by
  constructor
  · have hknown := h.known
    simp only [List.map_append, List.map_cons, List.mem_append, List.mem_cons] at hknown ⊢
    rcases hknown with hbefore | hthis | hbehind
    · exact .inl hbefore
    · exact absurd hthis.symm hr
    · exact .inr (.inr hbehind)
  · intro own hown hcontent
    rcases List.mem_append.mp hown with hbefore | hown
    · exact h.label_eq own (List.mem_append_left _ hbefore) hcontent
    · rcases List.mem_cons.mp hown with rfl | hbehind
      · exact absurd hcontent hedited
      · exact h.label_eq own (List.mem_append_right _ (List.mem_cons_of_mem _ hbehind)) hcontent

/-- A record in the place of the only one with the content. -/
theorem Record.pinned_of_unique {before behind : List Record} {r edited : Record}
    (hunique : (before ++ r :: behind).countP (·.content = r.content) = 1)
    (hsame : edited.content = r.content) :
    Pinned r.content edited.label (before ++ edited :: behind) := by
  rw [List.countP_append, List.countP_cons_of_pos (by simp)] at hunique
  have hbefore : ∀ own ∈ before, own.content ≠ r.content := by
    have hnone : before.countP (·.content = r.content) = 0 := by omega
    simpa [List.countP_eq_zero] using hnone
  have hbehind : ∀ own ∈ behind, own.content ≠ r.content := by
    have hnone : behind.countP (·.content = r.content) = 0 := by omega
    simpa [List.countP_eq_zero] using hnone
  constructor
  · exact List.mem_map.mpr ⟨edited, List.mem_append_right _ List.mem_cons_self, hsame⟩
  · intro own hown hcontent
    rcases List.mem_append.mp hown with hown | hown
    · exact absurd hcontent (hbefore own hown)
    · rcases List.mem_cons.mp hown with rfl | hown
      · rfl
      · exact absurd hcontent (hbehind own hown)

namespace Store

variable {store : Store} {id : Int} {level : Option Text} {tags : Option (List Text)}
  {key content : Text} {label : List Text × Level} {s s' : Session} {before : Batch}
  {r edited : Record}

/-- After an edit of a record whose content is the only one of its kind in the file, the content has
the labels of the edit. -/
theorem pins_of_update (hload : (store.load s).1 = .ok before) (hfirst : before.FirstWith id key r)
    (hunique : ((before.get? key).getD []).countP (·.content = r.content) = 1)
    (hrun : store.update id level tags s = (.ok edited, s')) :
    store.Pins key r.content edited.label s' := by
  have hend := update_ends_of_eq hrun
  generalize ho : Except.ok edited = o at hend
  cases hend with
  | failed => cases ho
  | @edited e _ after _ _ hbefore hedit hafter =>
      cases ho
      cases hload.symm.trans hbefore
      obtain ⟨rfl, hedited⟩ := hfirst.editedAt hedit
      obtain ⟨front, back, hold, hnew⟩ := hedited.file
      refine ⟨after, hafter, ?_⟩
      rw [hold, Option.getD_some] at hunique
      rw [Batch.Pins, hnew, Option.getD_some]
      exact Record.pinned_of_unique hunique rfl

theorem Pins.update (h : store.Pins key content label s) {o : Except Failure Record}
    (hrun : store.update id level tags s = (o, s'))
    (hother : ∀ edited, o = .ok edited → edited.content ≠ content) :
    store.Pins key content label s' := by
  have ⟨before, hload, hbefore⟩ := h
  cases update_ends_of_eq hrun with
  | failed hsame => exact h.sameIn hsame
  | @edited e _ after edited _ hload' hedit hafter =>
      cases hload.symm.trans hload'
      obtain ⟨path, r, hfirst⟩ := Batch.exists_firstWith hedit
      obtain ⟨rfl, hedited⟩ := hfirst.editedAt hedit
      have hcontent := hother _ rfl
      refine ⟨after, hafter, ?_⟩
      by_cases hkey : key = path
      · obtain ⟨front, back, hold, hnew⟩ := hedited.file
        subst hkey
        rw [Batch.Pins, hold, Option.getD_some] at hbefore
        rw [Batch.Pins, hnew, Option.getD_some]
        exact hbefore.replace hcontent hcontent
      · rw [Batch.Pins, hedited.others key hkey]
        exact hbefore

/-! ## Any number of updates and edits -/

/-- The sessions that come of one by updates of files and of workspaces and by edits of other
contents, with what has been sent of the files. Every update that extracts the file finds the
content in it, and every update of a workspace that succeeds has extracted the file. In between, the
files around the store may change. -/
inductive Since (store : Store) (key content : Text) (s : Session) :
    List FileRecords → Session → Prop where
  | start : Since store key content s [] s
  | fileUpdated {w : Workflow} {path root : Path} {sent : List FileRecords}
      {asked : List Question} {t t' : Session} {o : Except Failure Reconciliation} :
      Since store key content s sent t → w.store = store → w.AnswersSent →
      ((t.files.resolve path).toText = key →
        ∀ fresh, w.extracted t.files (t.files.resolve path) root = .ok fresh →
          content ∈ fresh.map Record.content) →
      w.updateFile path root t = (o, t') → t'.questions = t.questions ++ asked →
      Since store key content s
        (sent ++ asked.flatMap (Question.sent (t.files.resolve path).toText)) t'
  | workspaceUpdated {w : Workflow} {root : Path} {sent : List FileRecords}
      {asked : List Question} {t t' : Session}
      {o : Except Failure (List (Text × Reconciliation))} :
      Since store key content s sent t → w.store = store → w.AnswersSent →
      (∀ current, (w.extractTree root t).1 = .ok current →
        (∀ fresh, current.get? key = some fresh → content ∈ fresh.map Record.content) ∧
        (o.isOk = true → (current.get? key).isSome = true)) →
      w.updateWorkspace root t = (o, t') → t'.questions = t.questions ++ asked →
      Since store key content s (sent ++ asked.flatMap (Question.sent key)) t'
  | edited {id : Int} {level : Option Text} {tags : Option (List Text)} {sent : List FileRecords}
      {t t' : Session} {o : Except Failure Record} :
      Since store key content s sent t → store.update id level tags t = (o, t') →
      (∀ edited, o = .ok edited → edited.content ≠ content) →
      Since store key content s sent t'
  | world {sent : List FileRecords} {t t' : Session} :
      Since store key content s sent t → store.SameIn t t' → Since store key content s sent t'

/-- What any number of updates and edits keep. -/
theorem Since.pins {sent : List FileRecords} {t : Session}
    (h : store.Since key content s sent t) (hs : store.Pins key content label s) :
    store.Pins key content label t ∧ Spares key content sent := by
  -- That nothing is sent follows from what the store pins before the step, so both go together.
  induction h with
  | start => exact ⟨hs, fun _ => nofun⟩
  | fileUpdated _ hstore hw hfound hrun hasked ih =>
      subst hstore
      obtain ⟨hpins, hspares⟩ := Workflow.updateFile_pins hw ih.1 hfound hrun hasked
      exact ⟨hpins, List.forall_mem_append.mpr ⟨ih.2, hspares⟩⟩
  | workspaceUpdated _ hstore hw hfound hrun hasked ih =>
      subst hstore
      obtain ⟨hpins, hspares⟩ := Workflow.updateWorkspace_pins hw ih.1 hfound hrun hasked
      exact ⟨hpins, List.forall_mem_append.mpr ⟨ih.2, hspares⟩⟩
  | edited _ hrun hother ih => exact ⟨ih.1.update hrun hother, ih.2⟩
  | world _ hsame ih => exact ⟨ih.1.sameIn hsame, ih.2⟩

/-- Whatever comes after an edit of a record whose content is the only one of its kind in the file,
the records of the file with that content have the labels of the edit, and none of them has been
sent. -/
theorem update_survives (hload : (store.load s).1 = .ok before)
    (hfirst : before.FirstWith id key r)
    (hunique : ((before.get? key).getD []).countP (·.content = r.content) = 1)
    (hrun : store.update id level tags s = (.ok edited, s')) :
    ∀ sent t, store.Since key r.content s' sent t →
      (∃ b, (store.load t).1 = .ok b ∧ r.content ∈ ((b.get? key).getD []).map Record.content ∧
        ∀ own ∈ (b.get? key).getD [], own.content = r.content →
          own.level = edited.level ∧ own.tags = edited.tags) ∧
      Spares key r.content sent := by
  intro sent t ht
  obtain ⟨⟨b, hb, hpins⟩, hspares⟩ := ht.pins (pins_of_update hload hfirst hunique hrun)
  refine ⟨⟨b, hb, hpins.known, fun own hown hcontent => ?_⟩, hspares⟩
  have hlabel : (own.tags, own.level) = (edited.tags, edited.level) :=
    hpins.label_eq own hown hcontent
  cases own
  cases edited
  cases hlabel
  exact ⟨rfl, rfl⟩

/-!
### An edited comment, and a new one before it

The comment that is known is edited. An update of the file then finds the new one, an update of
everything moves the edited one behind it, and an edit of the new one follows.
-/

open Workflow

theorem tagging_answersSent : tagging.AnswersSent := by
  constructor
  · rintro rs answers ⟨⟩ a ha
    obtain ⟨r, hr, rfl⟩ := List.mem_map.mp ha
    exact List.mem_map.mpr ⟨r, hr, rfl⟩
  · rintro b answers ⟨⟩ path a ha
    exact List.mem_map_of_mem ha

theorem shelfWork_answersSent : shelfWork.AnswersSent := by
  refine ⟨Reached.shelfWork_answersValid, ?_⟩
  rintro c ⟨⟩
  exact tagging_answersSent

theorem shelved_firstWith : shelved.FirstWith 1 "/a.py" (shelfRecord 1 "a" "a.py" ["todo"] 0) :=
  ⟨[("/z.py", [shelfRecord 0 "a" "z.py" [] 0])], [], [], [], rfl, rfl, by decide,
    List.forall_mem_nil _⟩

def shelfMarked : Session := (memory.update 1 (some "class") (some ["mine"]) shelfSession).2

def shelfFilled : Session := (shelfWork.updateFile ⟨false, ["a.py"]⟩ .root shelfMarked).2

def shelfOrdered : Session := (shelfWork.updateWorkspace .root shelfFilled).2

def shelfRelabelled : Session := (memory.update 0 none (some ["other"]) shelfOrdered).2

set_option maxRecDepth 10000 in
theorem shelfRelabelled_since :
    memory.Since "/a.py" "a" shelfMarked [("/a.py", [shelfRecord 0 "b" "a.py" [] 0])]
      shelfRelabelled := by
  have hfresh : shelfWork.extracted shelfMarked.files
      (shelfMarked.files.resolve ⟨false, ["a.py"]⟩) .root = .ok shelfFresh := rfl
  obtain ⟨result, hfile⟩ : ∃ result, shelfWork.updateFile ⟨false, ["a.py"]⟩ .root shelfMarked =
      (.ok result, shelfFilled) := ⟨_, Prod.ext rfl rfl⟩
  have hasked : shelfFilled.questions =
      shelfMarked.questions ++ [.file [shelfRecord 0 "b" "a.py" [] 0]] := rfl
  have hfilled : memory.Since "/a.py" "a" shelfMarked
      [("/a.py", [shelfRecord 0 "b" "a.py" [] 0])] shelfFilled := by
    refine Since.start.fileUpdated rfl shelfWork_answersSent ?_ hfile hasked
    intro _ fresh h
    cases hfresh.symm.trans h
    decide
  obtain ⟨results, hwhole⟩ : ∃ results, shelfWork.updateWorkspace .root shelfFilled =
      (.ok results, shelfOrdered) := ⟨_, Prod.ext rfl rfl⟩
  have hcurrent : (shelfWork.extractTree .root shelfFilled).1 =
      .ok (Batch.empty.put "/a.py" [shelfRecord 0 "b" "a.py" [] 0, shelfRecord 1 "a" "a.py" [] 2]) :=
    rfl
  have hordered : memory.Since "/a.py" "a" shelfMarked
      [("/a.py", [shelfRecord 0 "b" "a.py" [] 0])] shelfOrdered := by
    have hsilent : shelfOrdered.questions = shelfFilled.questions ++ [] := rfl
    refine hfilled.workspaceUpdated rfl shelfWork_answersSent ?_ hwhole hsilent
    intro current h
    cases hcurrent.symm.trans h
    refine ⟨?_, fun _ => rfl⟩
    rintro fresh ⟨⟩
    decide
  have hedit : memory.update 0 none (some ["other"]) shelfOrdered =
      (.ok (shelfRecord 0 "b" "a.py" ["other"] 0), shelfRelabelled) := rfl
  refine hordered.edited hedit ?_
  rintro edited ⟨⟩
  decide

set_option maxRecDepth 10000 in
theorem update_survives_shelf :
    (memory.load shelfSession).1 = .ok shelved ∧
    shelved.FirstWith 1 "/a.py" (shelfRecord 1 "a" "a.py" ["todo"] 0) ∧
    ((shelved.get? "/a.py").getD []).countP (·.content = ("a" : Text)) = 1 ∧
    memory.update 1 (some "class") (some ["mine"]) shelfSession =
      (.ok { shelfRecord 1 "a" "a.py" ["mine"] 0 with level := .class }, shelfMarked) ∧
    memory.Since "/a.py" "a" shelfMarked [("/a.py", [shelfRecord 0 "b" "a.py" [] 0])]
      shelfRelabelled ∧
    ∀ own ∈ (shelfRelabelled.memory.get? "/a.py").getD [], own.content = ("a" : Text) →
      own.level = .class ∧ own.tags = ["mine"] := by
  have hunique : ((shelved.get? "/a.py").getD []).countP (·.content = ("a" : Text)) = 1 := by
    decide
  have hedit : memory.update 1 (some "class") (some ["mine"]) shelfSession =
      (.ok { shelfRecord 1 "a" "a.py" ["mine"] 0 with level := .class }, shelfMarked) := rfl
  obtain ⟨⟨b, hb, -, hlabels⟩, -⟩ :=
    update_survives rfl shelved_firstWith hunique hedit _ _ shelfRelabelled_since
  refine ⟨rfl, shelved_firstWith, hunique, hedit, shelfRelabelled_since, ?_⟩
  rw [← Except.ok.inj hb] at hlabels
  exact hlabels

/-!
### A file that is gone for a while

After the edit all files are gone, and everything is updated. Then the file is back, and is updated.
-/

def shelfBare : Session := { shelfMarked with files := ⟨.directory [], .root⟩ }

def shelfDropped : Session := (shelfWork.updateWorkspace .root shelfBare).2

def shelfRestored : Session := { shelfDropped with files := shelf }

def shelfResent : Session := (shelfWork.updateFile ⟨false, ["a.py"]⟩ .root shelfRestored).2

set_option maxRecDepth 10000 in
/-- An update of a workspace drops a file that is gone, and with it the labels of the edit: when the
file is back, the comment is sent again. -/
theorem shelf_dropped :
    (memory.load shelfSession).1 = .ok shelved ∧
    shelved.FirstWith 1 "/a.py" (shelfRecord 1 "a" "a.py" ["todo"] 0) ∧
    ((shelved.get? "/a.py").getD []).countP (·.content = ("a" : Text)) = 1 ∧
    memory.update 1 (some "class") (some ["mine"]) shelfSession =
      (.ok { shelfRecord 1 "a" "a.py" ["mine"] 0 with level := .class }, shelfMarked) ∧
    shelfWork.AnswersSent ∧
    (shelfWork.extractTree .root shelfBare).1 = .ok .empty ∧
    shelfWork.updateWorkspace .root shelfBare = (.ok [], shelfDropped) ∧
    shelfWork.extracted shelfRestored.files
      (shelfRestored.files.resolve ⟨false, ["a.py"]⟩) .root = .ok shelfFresh ∧
    ("a" : Text) ∈ shelfFresh.map Record.content ∧
    (∃ result, shelfWork.updateFile ⟨false, ["a.py"]⟩ .root shelfRestored =
      (.ok result, shelfResent)) ∧
    shelfResent.questions = shelfRestored.questions ++ [.file (shelfFresh.map (·.withTags []))] ∧
    ∃ own ∈ (shelfResent.memory.get? "/a.py").getD [], own.content = ("a" : Text) ∧
      ¬ (own.level = .class ∧ own.tags = ["mine"]) := by
  have hsaved : shelfResent.memory.get? "/a.py" =
      some [shelfRecord 0 "b" "a.py" ["note"] 0, shelfRecord 1 "a" "a.py" ["note"] 2] := rfl
  refine ⟨rfl, shelved_firstWith, by decide, rfl, shelfWork_answersSent, rfl, rfl, rfl, by decide,
    ⟨_, Prod.ext rfl rfl⟩, rfl, ?_⟩
  rw [hsaved]
  exact ⟨shelfRecord 1 "a" "a.py" ["note"] 2, by decide, rfl, by decide⟩

end Store

end Marginalia
