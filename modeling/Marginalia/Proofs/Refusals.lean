import Marginalia.Proofs.Failures
import Marginalia.Proofs.Watching

/-!
Failures that a command refuses: it prints them in red and ends with the exit code one. Of the
failures that the library has names for, only that of a file which is there and cannot be read is
not among them.
-/

namespace Marginalia

/-! ## Commands -/

namespace Command

/-- The categories of the failures that a command prints. -/
def handled : Command → List Category
  | extract .. => [.unsupportedLanguage, .missingFile]
  | classify .. => [.classifierFailure, .storeFailure]
  | update .. => [.classifierFailure, .storeFailure, .unsupportedLanguage, .missingFile]
  | list .. | edit .. => [.storeFailure]
  | watch .. => []

/-- The work below a command: whatever it fails with goes through, and nothing is printed. -/
def work (env : Surroundings) : Command → Run Unit
  | extract _ (some code) language _ => discard (extractScratch env code language)
  | extract (some path) none language _ => discard (extractPath env path language)
  | extract none none _ _ => pure ()
  | classify root offline => do
    let w ← workflow env root offline
    discard (w.classifyWorkspace root)
  | update (some path) root offline => do
    let w ← workflow env root offline
    discard (w.updateFile path root)
  | update none root offline => do
    let w ← workflow env root offline
    discard (w.updateWorkspace root)
  | list root _ _ => do
    let settings ← settings env
    discard (storeOf settings root).load
  | edit id root level tags =>
    if level.isNone && tags.isNone then pure ()
    else do
      let settings ← settings env
      discard ((storeOf settings root).update id (level.map Level.name) tags)
  | watch root offline => discard (runWatch env root offline)

/-! ### What is printed -/

/-- The failure in red and the exit code one. -/
def refusal (f : Failure) : Printed := .refused (Markup.error f.message)

/-- The command ends as the work does, but for failures of the given categories: those it prints. -/
structure Guards (categories : List Category) (work : Run Unit) (command : Run Printed) : Prop where
  done : ∀ {s s'}, work s = (.ok (), s') → ∃ printed, command s = (.ok printed, s')
  failed : ∀ {s s' f}, work s = (.error f, s') →
    command s = (if categories.any f.isA then .ok (refusal f) else .error f, s')

section

variable {α : Type} {env : Surroundings} {categories : List Category} {first step : Run α}
  {s s' : Session} {f : Failure}

theorem discard_apply (step : Run α) (s : Session) :
    discard step s = ((fun _ => ()) <$> (step s).1, (step s).2) :=
  Run.map_apply (fun _ => ()) step s

theorem exists_of_discard_ok (h : discard step s = (.ok (), s')) : ∃ a, step s = (.ok a, s') := by
  rw [discard_apply] at h
  rcases hstep : step s with ⟨own | a, t⟩
  · rw [hstep] at h
    cases h
  · rw [hstep] at h
    cases h
    exact ⟨a, rfl⟩

theorem discard_eq_error_iff : discard step s = (.error f, s') ↔ step s = (.error f, s') := by
  rw [discard_apply]
  rcases step s with ⟨own | a, t⟩
  · constructor <;> rintro ⟨⟩ <;> rfl
  · constructor <;> rintro ⟨⟩

theorem guards_pure (categories : List Category) (printed : Printed) :
    Guards categories (pure ()) (pure printed) := by
  constructor
  · rintro s s' ⟨⟩
    exact ⟨printed, rfl⟩
  · rintro s s' f ⟨⟩

theorem guards_printing (categories : List Category) (step : Run α) (print : α → Printed) :
    Guards categories (discard step) (printing categories step print) := by
  have hattempt : ∀ {s r s'}, step s = (r, s') → Run.attempt step s = (.ok r, s') := by
    intro s r s' h
    rw [Run.attempt, h]
  constructor
  · intro s s' h
    obtain ⟨a, ha⟩ := exists_of_discard_ok h
    exact ⟨print a, Run.bind_of_ok (hattempt ha)⟩
  · intro s s' f h
    rw [printing, Run.bind_of_ok (hattempt (discard_eq_error_iff.mp h))]
    dsimp only
    split <;> rfl

theorem guards_discard (command : Run Printed) : Guards [] (discard command) command :=
  ⟨exists_of_discard_ok, discard_eq_error_iff.mp⟩

/-- What comes first may fail with what is not printed. -/
theorem Guards.bind {work : α → Run Unit} {command : α → Run Printed}
    (hfirst : ∀ s, first.FailsWith s fun f => categories.any f.isA = false)
    (h : ∀ a, Guards categories (work a) (command a)) :
    Guards categories (first >>= work) (first >>= command) := by
  constructor <;> intro s s'
  · intro hrun
    rcases hone : first s with ⟨own | a, t⟩
    · cases (Run.bind_of_error hone).symm.trans hrun
    · rw [Run.bind_of_ok hone] at hrun ⊢
      exact (h a).done hrun
  · intro f hrun
    rcases hone : first s with ⟨own | a, t⟩
    · cases (Run.bind_of_error hone).symm.trans hrun
      rw [Run.bind_of_error hone, hfirst s f s' hone]
      rfl
    · rw [Run.bind_of_ok hone] at hrun ⊢
      exact (h a).failed hrun

theorem Guards.after_get {work : Run Unit} {command : Session → Run Printed}
    (h : ∀ t, Guards categories work (command t)) : Guards categories work (get >>= command) := by
  have hget : ∀ s, (get >>= command) s = command s s := fun s => Run.bind_of_ok rfl
  constructor <;> intro s
  · rw [hget]
    exact (h s).done
  · rw [hget]
    exact (h s).failed

theorem failsWith_settings {P : Failure → Prop} (hP : ∀ issues, P (.invalid issues))
    (s : Session) : (settings env).FailsWith s P := by
  refine (Run.reads_noted [] _ s).failsWith ?_
  intro f h
  cases husual : Settings.ofVariables env.environment with
  | valid usual =>
      rw [husual] at h
      cases h
  | invalid issues =>
      rw [husual] at h
      cases h
      exact hP issues

theorem failsWith_workflow {P : Failure → Prop} (hP : ∀ issues, P (.invalid issues))
    (root : Path) (offline : Bool) (s : Session) : (workflow env root offline).FailsWith s P :=
  (failsWith_settings hP s).bind fun _ s' _ => Run.failsWith_pure _ s'

theorem guards_run (env : Surroundings) (c : Command) :
    Guards c.handled (c.work env) (c.run env) := by
  cases c with
  | extract path code language asJson =>
      cases code with
      | some text => exact guards_printing ..
      | none =>
          cases path with
          | some p => exact guards_printing ..
          | none => exact guards_pure ..
  | classify root offline =>
      exact .bind (failsWith_workflow (fun _ => rfl) root offline) fun w => guards_printing ..
  | update path root offline =>
      cases path <;>
        exact .bind (failsWith_workflow (fun _ => rfl) root offline) fun w => guards_printing ..
  | list root file level =>
      refine .bind (failsWith_settings fun _ => rfl) fun usual => .after_get fun t => ?_
      exact guards_printing ..
  | edit id root level tags =>
      simp only [work, run, runEdit]
      split
      · exact guards_pure ..
      · exact .bind (failsWith_settings fun _ => rfl) fun usual => guards_printing ..
  | watch root offline => exact guards_discard _

end

/-! ### What the work fails with -/

/-- The command is about one file, which is there and cannot be read, and fails with that. -/
inductive Unreadable (env : Surroundings) (s : Session) : Command → Failure → Prop where
  | extract {path : Path} {language : Option Text} {asJson : Bool} {f : Failure} :
      s.files.IsUnreadable path language f →
      Unreadable env s (.extract (some path) none language asJson) f
  | update {path root : Path} {offline : Bool} {usual : Settings} {f : Failure} :
      Settings.ofVariables env.environment = .valid usual →
      s.files.IsUnreadable (s.files.resolve path) none f →
      Unreadable env s (.update (some path) root offline) f

section

variable {env : Surroundings} {c : Command} {s : Session} {f : Failure}

theorem failsWith_discard {α : Type} {step : Run α} {P : Failure → Prop}
    (h : step.FailsWith s P) : (discard step).FailsWith s P :=
  fun f s' hrun => h f s' (discard_eq_error_iff.mp hrun)

theorem covered_invalid {categories : List Category} {exempt : Failure → Prop}
    (issues : List Issue) : (Failure.invalid issues).Covered categories exempt :=
  Failure.covered_of_foreign rfl

theorem workflow_of_valid {usual : Settings}
    (h : Settings.ofVariables env.environment = .valid usual) (root : Path) (offline : Bool)
    (s : Session) : ∃ w, workflow env root offline s = (.ok w, s) := by
  obtain ⟨w, hw⟩ : ∃ w, (workflow env root offline s).1 = .ok w := by
    unfold workflow settings
    rw [h]
    exact ⟨_, rfl⟩
  exact ⟨w, workflow_eq hw⟩

theorem regular_of_workflow {root : Path} {offline : Bool} {w : Workflow}
    (hdates : ∃ tree base history, env.dates = Blame.dates tree base history)
    (h : (workflow env root offline s).1 = .ok w) : w.Regular := by
  obtain ⟨usual, -, hown, hremote⟩ := exists_of_workflow h
  constructor
  · rw [hown]
    exact hdates
  · intro c hc
    rw [hremote c hc]
    exact Classifier.remote_failsAsSuch _ _

/-- What follows once there is a workflow, which leaves the session as it is. -/
theorem failsWith_workflow_bind {α : Type} {next : Workflow → Run α} {root : Path} {offline : Bool}
    {P : Failure → Prop} (hP : ∀ issues, P (.invalid issues))
    (h : ∀ w, (workflow env root offline s).1 = .ok w → (next w).FailsWith s P) :
    (workflow env root offline >>= next).FailsWith s P := by
  apply (failsWith_workflow hP root offline s).bind
  intro w s' hrun
  have hok : (workflow env root offline s).1 = .ok w := by rw [hrun]
  obtain rfl : s = s' := congrArg Prod.snd ((workflow_eq hok).symm.trans hrun)
  exact h w hok

theorem failsWith_extractScratch {categories : List Category} {exempt : Failure → Prop}
    (hlanguage : .unsupportedLanguage ∈ categories) (env : Surroundings) (code : Text)
    (language : Option Text) (s : Session) :
    (extractScratch env code language).FailsWith s (Failure.Covered categories exempt) := by
  have hscratch : ∀ f, scratchSource env code language = .error f →
      f.Covered categories exempt := by
    intro f h
    unfold scratchSource at h
    cases hl : Language.resolve language none with
    | error e =>
        rw [hl] at h
        cases h
        exact Failure.covered_of_isA hlanguage rfl
    | ok l =>
        rw [hl] at h
        cases h
  apply ((Run.reads_noted [] _ s).failsWith hscratch).bind
  intro source s₁ _
  apply (failsWith_settings covered_invalid s₁).bind
  intro usual s₂ _
  refine Run.FailsWith.bind ?_ fun records s₃ _ => Run.failsWith_pure _ s₃
  exact (Run.reads_noted _ _ s₂).failsWith fun f h =>
    Failure.covered_of_foreign (Source.isA_of_extract h)

theorem failsWith_extractPath {categories : List Category}
    (hlanguage : .unsupportedLanguage ∈ categories) (env : Surroundings) (path : Path)
    (language : Option Text) (s : Session) :
    (extractPath env path language).FailsWith s
      (Failure.Covered categories (s.files.IsUnreadable path language)) := by
  apply Run.failsWith_get_bind
  apply ((Run.reads_noted [] _ s).failsWith fun f h =>
    Files.covered_of_readSource hlanguage h).bind
  intro source s₁ _
  apply (failsWith_settings covered_invalid s₁).bind
  intro usual s₂ _
  exact (Run.reads_noted _ _ s₂).failsWith fun f h => Files.covered_of_extractFile hlanguage h

theorem failsWith_work (hdates : ∃ tree base history, env.dates = Blame.dates tree base history)
    (c : Command) (s : Session) :
    (c.work env).FailsWith s (Failure.Covered c.handled (c.Unreadable env s)) := by
  cases c with
  | extract path code language asJson =>
      have hlanguage : .unsupportedLanguage ∈ (extract path code language asJson).handled := .head _
      cases code with
      | some text =>
          exact failsWith_discard (failsWith_extractScratch hlanguage env text language s)
      | none =>
          cases path with
          | some p =>
              exact failsWith_discard ((failsWith_extractPath hlanguage env p language s).imp
                fun f hf => hf.imp .extract)
          | none => exact Run.failsWith_pure () s
  | classify root offline =>
      refine failsWith_workflow_bind covered_invalid fun w hw => failsWith_discard ?_
      exact Workflow.failsWith_classifyWorkspace (regular_of_workflow hdates hw) root s (.head _)
        (.tail _ (.head _))
  | update path root offline =>
      have hclassifier : .classifierFailure ∈ (update path root offline).handled := .head _
      have hstore : .storeFailure ∈ (update path root offline).handled := .tail _ (.head _)
      have hlanguage : .unsupportedLanguage ∈ (update path root offline).handled :=
        .tail _ (.tail _ (.head _))
      cases path with
      | some p =>
          refine failsWith_workflow_bind covered_invalid fun w hw => failsWith_discard ?_
          obtain ⟨usual, husual, -⟩ := exists_of_workflow hw
          exact (Workflow.failsWith_updateFile (regular_of_workflow hdates hw) p root s hclassifier
            hstore hlanguage).imp fun f hf => hf.imp (.update husual)
      | none =>
          refine failsWith_workflow_bind covered_invalid fun w hw => failsWith_discard ?_
          exact Workflow.failsWith_updateWorkspace (regular_of_workflow hdates hw) root s
            hclassifier hstore
  | list root file level =>
      apply (failsWith_settings covered_invalid s).bind
      intro usual s₁ _
      exact failsWith_discard (Store.failsWith_load (.head _) (storeOf usual root) s₁)
  | edit id root level tags =>
      simp only [work]
      split
      · exact Run.failsWith_pure () s
      · apply (failsWith_settings covered_invalid s).bind
        intro usual s₁ _
        exact failsWith_discard
          (Store.failsWith_update (.head _) (storeOf usual root) id level tags s₁)
  | watch root offline =>
      apply failsWith_discard
      intro f s' hrun
      rcases hw : workflow env root offline s with ⟨own | w, t⟩
      · cases (Run.bind_of_error hw).symm.trans hrun
        exact failsWith_workflow covered_invalid root offline s f s' hw
      · obtain ⟨printed, final, hdone, -⟩ := exists_runWatch (congrArg Prod.fst hw)
        cases hdone.symm.trans hrun

theorem Unreadable.unhandled (h : c.Unreadable env s f) : c.handled.any f.isA = false := by
  have hisA : f.isA = Category.unreadableEntry.isA := by
    cases h with
    | extract hfile => exact congrArg Category.isA hfile.category_eq
    | update _ hfile => exact congrArg Category.isA hfile.category_eq
  rw [hisA]
  cases h <;> rfl

theorem Unreadable.exists_work (h : c.Unreadable env s f) :
    ∃ s', c.work env s = (.error f, s') := by
  cases h with
  | @extract path language asJson _ hfile =>
      have hget : (get : Run Session) s = (.ok s, s) := rfl
      obtain ⟨s', hread, -⟩ : (Run.noted ([], s.files.readSource path language)).Reads s
          (.error f) [] := Files.readSource_of_isUnreadable hfile ▸ Run.reads_noted [] _ s
      exact ⟨s', discard_eq_error_iff.mpr
        ((Run.bind_of_ok hget).trans (Run.bind_of_error hread))⟩
  | @update path root offline usual _ husual hfile =>
      obtain ⟨w, hw⟩ := workflow_of_valid husual root offline s
      obtain ⟨s', hupdate⟩ := Workflow.updateFile_of_isUnreadable (w := w) hfile
      exact ⟨s', (Run.bind_of_ok hw).trans (discard_eq_error_iff.mpr hupdate)⟩

end

end Command

/-! ## Endings -/

/-- The ending shows the failure in red and nothing else, and its exit code is one. -/
structure Ending.Refuses (e : Ending) (f : Failure) : Prop where
  exitCode : e.exitCode = 1
  console : e.console = [Markup.error f.message]
  output : e.output = []
  failure : e.failure = none

namespace Invocation

section

variable {env : Surroundings} {verbose : Bool} {c : Command} {s s' : Session} {f : Failure}

theorem failure_of_ok {printed : Printed} (h : c.run env s = (.ok printed, s')) :
    (run env (.command verbose c) s).1.failure = none := by
  simp only [run, h]

theorem failure_of_error (h : c.run env s = (.error f, s')) :
    (run env (.command verbose c) s).1.failure = some f := by
  simp only [run, h]

theorem refuses_of_refusal (h : c.run env s = (.ok (Command.refusal f), s')) :
    (run env (.command verbose c) s).1.Refuses f := by
  simp only [run, h]
  exact ⟨rfl, rfl, rfl, rfl⟩

/-- What the ending tells of a failure below the command: it is printed if the command has a
category for it, and else the command fails with it. -/
theorem refuses_or_failure_of_work (h : c.work env s = (.error f, s')) :
    (c.handled.any f.isA = true ∧ (run env (.command verbose c) s).1.Refuses f) ∨
      (c.handled.any f.isA = false ∧ (run env (.command verbose c) s).1.failure = some f) := by
  have hrun := (Command.guards_run env c).failed h
  cases hany : c.handled.any f.isA with
  | true =>
      rw [if_pos hany] at hrun
      exact .inl ⟨rfl, refuses_of_refusal hrun⟩
  | false =>
      rw [hany] at hrun
      exact .inr ⟨rfl, failure_of_error hrun⟩

theorem failure_of_unreadable (h : c.Unreadable env s f) :
    (run env (.command verbose c) s).1.failure = some f := by
  obtain ⟨s', hwork⟩ := h.exists_work
  rcases refuses_or_failure_of_work hwork with ⟨hhandled, -⟩ | ⟨-, hfailure⟩
  · cases hhandled.symm.trans h.unhandled
  · exact hfailure

/-- Every failure that the library has a name for and that comes up below a command is printed in
red, with the exit code one, except for that of a single file to extract or to update which is there
and cannot be read. That one, and no other, goes through the command. -/
theorem run_refuses_iff (hdates : ∃ tree base history, env.dates = Blame.dates tree base history)
    (verbose : Bool) (c : Command) (s : Session) :
    let ending := (run env (.command verbose c) s).1
    ∀ f, f.isA .domainFailure = true →
      ((c.work env s).1 = .error f → (ending.Refuses f ↔ ¬ c.Unreadable env s f)) ∧
      (ending.failure = some f ↔ c.Unreadable env s f) := by
  intro ending f hf
  have hescapes : ending.failure = some f ↔ c.Unreadable env s f := by
    refine ⟨fun hfailure => ?_, failure_of_unreadable⟩
    rcases hwork : c.work env s with ⟨own | u, s'⟩
    · rcases refuses_or_failure_of_work hwork with ⟨-, hrefuses⟩ | ⟨hunhandled, hown⟩
      · cases hrefuses.failure.symm.trans hfailure
      · cases hown.symm.trans hfailure
        rcases Command.failsWith_work hdates c s f s' hwork hf with hhandled | hunreadable
        · cases hhandled.symm.trans hunhandled
        · exact hunreadable
    · obtain ⟨printed, hrun⟩ := (Command.guards_run env c).done hwork
      cases (failure_of_ok hrun).symm.trans hfailure
  refine ⟨fun hwork => ?_, hescapes⟩
  rw [← hescapes]
  constructor
  · intro hrefuses hfailure
    cases hrefuses.failure.symm.trans hfailure
  · intro hnone
    rcases refuses_or_failure_of_work (Prod.ext hwork rfl) with ⟨-, hrefuses⟩ | ⟨-, hfailure⟩
    · exact hrefuses
    · exact absurd hfailure hnone

end

/-! ### A record that is not there, and a directory with the name of a source -/

open Command in
theorem run_refuses_iff_cellar :
    (work (cellarSurroundings []) (.edit 1 .here (some .inline) none) (.start cellar)).1 =
      .error (.recordMissing 1) ∧
    (run (cellarSurroundings []) (.command false (.edit 1 .here (some .inline) none))
      (.start cellar)).1.Refuses (.recordMissing 1) := by
  have hdates : ∃ tree base history,
      (cellarSurroundings []).dates = Blame.dates tree base history :=
    ⟨cellar.tree, cellar.base, fun _ _ => none, rfl⟩
  have hwork : (work (cellarSurroundings []) (.edit 1 .here (some .inline) none)
      (.start cellar)).1 = .error (.recordMissing 1) := rfl
  have hknown : (Failure.recordMissing 1).isA .domainFailure = true := rfl
  obtain ⟨hrefuses, -⟩ := run_refuses_iff hdates false (.edit 1 .here (some .inline) none)
    (.start cellar) (.recordMissing 1) hknown
  exact ⟨hwork, (hrefuses hwork).mpr nofun⟩

def drawer : Files := ⟨.directory [("d.st", .directory [])], .root⟩

/-- What is said of a path at which there is a directory. -/
def notAFile (path : Text) : Failure := .unreadable path ⟨.isDirectory, path⟩

/-- The work below the command fails with something that the library has a name for, and the command
does not refuse it but fails with it. -/
def LetsThrough (env : Surroundings) (c : Command) (s : Session) (f : Failure) : Prop :=
  f.isA .domainFailure = true ∧ (c.work env s).1 = .error f ∧
    (run env (.command false c) s).1.failure = some f ∧
    ¬ (run env (.command false c) s).1.Refuses f

open Command in
/-- Neither the extraction nor the update of a directory is refused. -/
theorem drawer_escapes :
    LetsThrough (cellarSurroundings []) (.extract (some ⟨false, ["d.st"]⟩) none none false)
      (.start drawer) (notAFile "d.st") ∧
    LetsThrough (cellarSurroundings []) (.update (some ⟨false, ["d.st"]⟩) .here true)
      (.start drawer) (notAFile "/d.st") :=
  ⟨⟨rfl, rfl, rfl, fun h => nomatch h.failure⟩, ⟨rfl, rfl, rfl, fun h => nomatch h.failure⟩⟩

end Invocation

end Marginalia
