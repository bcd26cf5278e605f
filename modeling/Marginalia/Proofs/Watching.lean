import Marginalia.CommandLine.Commands
import Marginalia.Proofs.Outcomes
import Marginalia.Proofs.Resolution
import Marginalia.Proofs.Sorting

/-!
Batches of changes under a watcher. The changed files of a batch are updated one after the other in
the order of their paths, and the first one that fails ends the batch: of the files behind it
nothing is stored. The next batch begins anew.
-/

namespace Marginalia

/-- The session with some more notes. -/
def Session.noting (s : Session) (entries : Log) : Session := { s with log := s.log ++ entries }

/-- Paths stand for the same places in both sessions. -/
def Session.ResolvesAs (s' s : Session) : Prop := ∀ p, s'.files.resolve p = s.files.resolve p

namespace Session

variable {s s' s'' : Session} {asked : List Question}

theorem extends_noting (s : Session) (entries : Log) : s.Extends (s.noting entries) [] :=
  ⟨rfl, rfl, (List.append_nil _).symm⟩

theorem Extends.resolvesAs (h : s.Extends s' asked) : s'.ResolvesAs s := by
  intro p
  rw [h.files]

theorem ResolvesAs.trans (h' : s''.ResolvesAs s') (h : s'.ResolvesAs s) : s''.ResolvesAs s :=
  fun p => (h' p).trans (h p)

end Session

/-! ## One update -/

theorem Store.resolvesAs_of_save {store : Store} {b : Batch} {s s' : Session}
    {r : Except Failure Unit} (h : store.save b s = (r, s')) : s'.ResolvesAs s := by
  cases store with
  | memory =>
      cases h
      exact fun p => rfl
  | file path =>
      change Store.saveFile path b s = (r, s') at h
      rw [Store.saveFile_eq] at h
      split at h
      · rename_i tree hwritten
        cases h
        exact Store.resolve_of_written hwritten
      · cases h
        exact fun p => rfl

namespace Workflow

variable {w : Workflow} {key other : Text} {s s' : Session} {records : List Record}
  {r : Except Failure Reconciliation}

/-- How an update of the file at `key` ends: with an error and with the store as it was, or with the
records of the file in the place of the old ones. -/
inductive Updated (w : Workflow) (key : Text) (s : Session) :
    Except Failure Reconciliation × Session → Prop where
  | failed {f : Failure} {s' : Session} : w.store.SameIn s s' → s'.ResolvesAs s →
      Updated w key s (.error f, s')
  | stored {result : Reconciliation} {s' : Session} {before : Batch} :
      (w.store.load s).1 = .ok before →
      (w.store.load s').1 = .ok (w.store.kept (before.put key result.merged).numbered) →
      s'.ResolvesAs s → Updated w key s (.ok result, s')

theorem updateFile_updated (hw : w.AnswersValid) (path root : Path) (s : Session) :
    w.Updated (s.files.resolve path).toText s (w.updateFile path root s) := by
  have hfailed : ∀ {f s' asked}, s.Extends s' asked →
      w.Updated (s.files.resolve path).toText s (.error f, s') := fun h =>
    .failed (Store.sameIn_of_extends w.store h) h.resolvesAs
  rcases hrun : w.updateFile path root s with ⟨r, s'⟩
  cases w.fileUpdate_of_eq hrun with
  | unread _ hs => exact hfailed hs
  | unclassified _ _ hs => exact hfailed hs
  | @saving _ _ _ t _ _ hread hanswers hs hsave =>
      have hcan := hread.canHold (hread.storable_answers hw hanswers)
      rcases Store.load_save_kept hcan t with ⟨t', hdone, hafter, -⟩ | ⟨file, e, -, -, hdone⟩
      · cases hdone.symm.trans hsave
        exact .stored hread.load hafter ((Store.resolvesAs_of_save hsave).trans hs.resolvesAs)
      · cases hdone.symm.trans hsave
        exact hfailed hs

/-- The store has these records for the file at `key`, under whatever ids and without empty tags
if it is a file. -/
def Holds (w : Workflow) (s : Session) (key : Text) (records : List Record) : Prop :=
  ∃ b, (w.store.load s).1 = .ok b ∧ (b.get? key).map (List.map fun r => r.withId 0) =
    some (records.map fun r => (w.store.tidy r).withId 0)

theorem holds_iff_of_sameIn (h : w.store.SameIn s s') :
    w.Holds s' key records ↔ w.Holds s key records := by
  rw [Holds, Holds, h.load_eq]

theorem Updated.resolvesAs (h : w.Updated key s (r, s')) : s'.ResolvesAs s := by
  cases h with
  | failed _ hresolves => exact hresolves
  | stored _ _ hresolves => exact hresolves

theorem Updated.holds {result : Reconciliation} (h : w.Updated key s (.ok result, s')) :
    w.Holds s' key result.merged := by
  cases h with
  | stored _ hafter _ => exact ⟨_, hafter, Store.map_get?_kept_put_self fun r i => rfl⟩

theorem Updated.holds_of_ne (h : w.Updated other s (r, s')) (hne : key ≠ other)
    (hholds : w.Holds s key records) : w.Holds s' key records := by
  cases h with
  | failed hsame _ => exact (holds_iff_of_sameIn hsame).mpr hholds
  | stored hbefore hafter _ =>
      obtain ⟨b, hb, hget⟩ := hholds
      cases hbefore.symm.trans hb
      refine ⟨_, hafter, Eq.trans ?_ hget⟩
      exact Store.map_get?_kept_put_of_ne (fun r i => rfl) (Store.kept_of_load hb) hne

end Workflow

/-! ## Updates of many paths -/

namespace Command

/-- Updates one changed file. -/
def updateOne (w : Workflow) (root path : Path) : Run Unit := do
  let result ← w.updateFile path root
  Run.note [.info (path.toText ++ ": " ++ Workflow.countsOf result ++ " reclassified")]

/-- Updates changed files one after the other, in the order given. -/
def updateEach (w : Workflow) (root : Path) (paths : List Path) : Run Unit :=
  paths.forM (updateOne w root)

theorem updateChanged_eq (w : Workflow) (root : Path) (paths : List Path) :
    updateChanged w root paths = updateEach w root (Sequence.sort Path.before paths) := rfl

variable {w : Workflow} {root path : Path} {paths front : List Path} {s s' turn : Session}
  {key : Text} {records : List Record} {f : Failure}

theorem updateOne_of_error (h : w.updateFile path root s = (.error f, s')) :
    updateOne w root path s = (.error f, s') := Run.bind_of_error h

theorem updateOne_of_ok {result : Reconciliation}
    (h : w.updateFile path root s = (.ok result, s')) :
    ∃ s'', updateOne w root path s = (.ok (), s'') ∧ s'.Extends s'' [] := by
  obtain ⟨s'', hnote, hs''⟩ := Run.reads_note
    [.info (path.toText ++ ": " ++ Workflow.countsOf result ++ " reclassified")] s'
  exact ⟨s'', (Run.bind_of_ok h).trans hnote, hs''⟩

theorem updateEach_cons (w : Workflow) (root path : Path) (paths : List Path) :
    updateEach w root (path :: paths) =
      (updateOne w root path >>= fun _ => updateEach w root paths) := rfl

theorem updateEach_append (w : Workflow) (root : Path) (front back : List Path) :
    updateEach w root (front ++ back) =
      (updateEach w root front >>= fun _ => updateEach w root back) :=
  List.forM_append

theorem updateOne_keeps {r : Except Failure Unit} (hw : w.AnswersValid)
    (hne : (s.files.resolve path).toText ≠ key) (h : w.Holds s key records)
    (hrun : updateOne w root path s = (r, s')) : w.Holds s' key records ∧ s'.ResolvesAs s := by
  have hupdated := Workflow.updateFile_updated hw path root s
  rcases hupdate : w.updateFile path root s with ⟨f | result, s₁⟩
  · rw [hupdate] at hupdated
    cases (updateOne_of_error hupdate).symm.trans hrun
    exact ⟨hupdated.holds_of_ne hne.symm h, hupdated.resolvesAs⟩
  · rw [hupdate] at hupdated
    obtain ⟨s₂, hnoted, hs₂⟩ := updateOne_of_ok hupdate
    cases hnoted.symm.trans hrun
    have hholds := hupdated.holds_of_ne hne.symm h
    exact ⟨(Workflow.holds_iff_of_sameIn (Store.sameIn_of_extends w.store hs₂)).mpr hholds,
      hs₂.resolvesAs.trans hupdated.resolvesAs⟩

/-- Updates of other files keep what is stored of a file, wherever they end. -/
theorem updateEach_keeps (hw : w.AnswersValid)
    (hne : ∀ q ∈ paths, (s.files.resolve q).toText ≠ key) (h : w.Holds s key records) :
    w.Holds (updateEach w root paths s).2 key records := by
  induction paths generalizing s with
  | nil => exact h
  | cons path paths ih =>
      obtain ⟨hpath, hpaths⟩ := List.forall_mem_cons.mp hne
      rw [updateEach_cons]
      rcases hrun : updateOne w root path s with ⟨f | u, s'⟩
      · rw [Run.bind_of_error hrun]
        exact (updateOne_keeps hw hpath h hrun).1
      · obtain ⟨hholds, hresolves⟩ := updateOne_keeps hw hpath h hrun
        rw [Run.bind_of_ok hrun]
        refine ih (fun q hq => ?_) hholds
        rw [hresolves q]
        exact hpaths q hq

/-! ## Batches -/

variable {batch earlier later : List Change}

/-- The note on a batch of changes. -/
def detected (batch : List Change) : LogEntry :=
  .info ("Detected changes in " ++ Text.ofNat (Change.sources batch).length ++ " file(s)")

/-- The paths of a batch in the order in which they are updated. -/
def turns (batch : List Change) : List Path := Sequence.sort Path.before (Change.sources batch)

/-- The paths that are updated before the one at hand. -/
def turnsBefore (batch : List Change) (path : Path) : List Path :=
  (turns batch).takeWhile (· != path)

/-- The paths that are updated after the one at hand. -/
def turnsBehind (batch : List Change) (path : Path) : List Path :=
  ((turns batch).dropWhile (· != path)).tail

/-- Every source that was not deleted has its turn. -/
theorem mem_turns {c : Change} (hc : c ∈ batch) (hkind : c.kind ≠ .deleted)
    (hsource : Language.isSupported c.path = true) : c.path ∈ turns batch := by
  have hmem : c.path ∈ (batch.filter fun c => c.kind != .deleted &&
      Language.isSupported c.path).map Change.path := by
    refine List.mem_map_of_mem (List.mem_filter.mpr ⟨hc, ?_⟩)
    rw [Bool.and_eq_true, bne_iff_ne]
    exact ⟨hkind, hsource⟩
  obtain ⟨q, hq, rfl⟩ : ∃ q ∈ Change.sources batch, q = c.path :=
    Sequence.exists_mem_distinctBy hmem
  exact Sequence.mem_sort.mpr hq

theorem sources_ne_nil (h : path ∈ turns batch) : Change.sources batch ≠ [] :=
  List.ne_nil_of_mem (Sequence.mem_sort.mp h)

theorem turns_eq (h : path ∈ turns batch) :
    turns batch = turnsBefore batch path ++ path :: turnsBehind batch path := by
  have hdrop : (turns batch).dropWhile (· != path) ≠ [] := by
    intro hnil
    have hall := List.dropWhile_eq_nil_iff.mp hnil path h
    rw [bne_self_eq_false] at hall
    cases hall
  have hhead : ((turns batch).dropWhile (· != path)).head hdrop = path := by
    have hnot := List.head_dropWhile_not (· != path) hdrop
    exact bne_eq_false_iff_eq.mp hnot
  calc turns batch = turnsBefore batch path ++ (turns batch).dropWhile (· != path) :=
        List.takeWhile_append_dropWhile.symm
    _ = turnsBefore batch path ++ path :: turnsBehind batch path := by
        rw [turnsBehind, ← List.cons_head_tail hdrop, hhead]
        rfl

def handOn (w : Workflow) (root : Path) (batch : List Change) : Run Unit :=
  Watcher.deliver (fun entry => Run.note [entry]) (updateFails w root) batch

theorem updateFails_eq {r : Except Failure Unit}
    (h : updateChanged w root paths s = (r, s')) :
    updateFails w root paths s = (.ok (!r.isOk), s') := by
  have hattempt : Run.attempt (updateChanged w root paths) s = (.ok r, s') := by
    rw [Run.attempt, h]
  refine (Run.bind_of_ok hattempt).trans ?_
  cases r <;> rfl

theorem handOn_of_nil (h : Change.sources batch = []) : handOn w root batch s = (.ok (), s) := by
  unfold handOn Watcher.deliver
  rw [if_pos (List.isEmpty_iff.mpr h)]
  rfl

theorem handOn_of_ne_nil (h : Change.sources batch ≠ []) :
    handOn w root batch = (do
      Run.note [detected batch]
      if ← updateFails w root (Change.sources batch) then
        Run.note [.error "Error in watcher callback"]
      else pure ()) := by
  unfold handOn Watcher.deliver
  rw [if_neg (by rwa [List.isEmpty_iff])]
  rfl

/-- A batch ends where the updates of its paths do, whether all of them were made or not. -/
theorem exists_handOn (h : Change.sources batch ≠ []) {r : Except Failure Unit}
    (hrun : updateEach w root (turns batch) (s.noting [detected batch]) = (r, turn)) :
    ∃ s', handOn w root batch s = (.ok (), s') ∧ turn.Extends s' [] := by
  have hnote : Run.note [detected batch] s = (.ok (), s.noting [detected batch]) := rfl
  have hfails := updateFails_eq ((congrFun (updateChanged_eq w root _) _).trans hrun)
  rw [handOn_of_ne_nil h, Run.bind_of_ok hnote, Run.bind_of_ok hfails]
  cases r with
  | ok u => exact ⟨turn, rfl, .refl turn⟩
  | error f => exact ⟨_, rfl, turn.extends_noting [.error "Error in watcher callback"]⟩

theorem exists_handOn_ok (w : Workflow) (root : Path) (batch : List Change) (s : Session) :
    ∃ s', handOn w root batch s = (.ok (), s') := by
  by_cases h : Change.sources batch = []
  · exact ⟨s, handOn_of_nil h⟩
  · rcases hrun : updateEach w root (turns batch) (s.noting [detected batch]) with ⟨r, turn⟩
    obtain ⟨s', hhand, -⟩ := exists_handOn h hrun
    exact ⟨s', hhand⟩

/-- The session after some batches. -/
def handedOn (w : Workflow) (root : Path) (batches : List (List Change)) (s : Session) : Session :=
  batches.foldl (fun s batch => (handOn w root batch s).2) s

theorem deliverAll_eq (w : Workflow) (root : Path) (batches : List (List Change)) (s : Session) :
    Watcher.deliverAll (fun entry => Run.note [entry]) (updateFails w root) batches s =
      (.ok (), handedOn w root batches s) := by
  induction batches generalizing s with
  | nil => rfl
  | cons batch batches ih =>
      obtain ⟨s', hrun⟩ := exists_handOn_ok w root batch s
      refine (Run.bind_of_ok hrun).trans ((ih s').trans ?_)
      rw [handedOn, handedOn, List.foldl_cons, hrun]

theorem handedOn_append (w : Workflow) (root : Path) (xs ys : List (List Change)) (s : Session) :
    handedOn w root (xs ++ ys) s = handedOn w root ys (handedOn w root xs s) :=
  List.foldl_append

theorem workflow_eq {env : Surroundings} {offline : Bool}
    (h : (workflow env root offline s).1 = .ok w) : workflow env root offline s = (.ok w, s) := by
  have hsettings : (settings env s).2 = s := by
    unfold settings Run.noted
    cases (Settings.ofVariables env.environment).orFail .invalid <;>
      exact congrArg (fun log => { s with log }) (List.append_nil s.log)
  unfold workflow at h ⊢
  rcases hrun : settings env s with ⟨f | usual, s'⟩
  · rw [Run.bind_of_error hrun] at h
    cases h
  · rw [hrun] at hsettings
    subst hsettings
    rw [Run.bind_of_ok hrun] at h ⊢
    cases h
    rfl

theorem exists_runWatch {env : Surroundings} {offline : Bool}
    (h : (workflow env root offline s).1 = .ok w) :
    ∃ printed final, runWatch env root offline s = (.ok printed, final) ∧
      (handedOn w root env.changes (s.noting (Watcher.start ⟨root, .off⟩).1)).Extends final [] := by
  have hget : (get : Run Session) s = (.ok s, s) := rfl
  have hstart : Run.note (Watcher.start ⟨root, .off⟩).1 s =
      (.ok (), s.noting (Watcher.start ⟨root, .off⟩).1) := rfl
  have hadvance : Watcher.advance (fun entry => Run.note [entry]) (updateFails w root) env.changes
      (Watcher.start ⟨root, .off⟩).2 (s.noting (Watcher.start ⟨root, .off⟩).1) =
        (.ok ⟨root, .delivered⟩,
          handedOn w root env.changes (s.noting (Watcher.start ⟨root, .off⟩).1)) :=
    Run.bind_of_ok (deliverAll_eq w root env.changes _)
  unfold runWatch
  rw [Run.bind_of_ok (workflow_eq h), Run.bind_of_ok hget]
  simp only []
  rw [Run.bind_of_ok hstart, Run.bind_of_ok hadvance]
  cases env.interrupted with
  | true => exact ⟨_, _, rfl, .refl _⟩
  | false => exact ⟨_, _, rfl, Session.extends_noting _ _⟩

/-- The workflow of a command has the dates at hand and asks a classifier that is far away. -/
theorem exists_of_workflow {env : Surroundings} {offline : Bool}
    (h : (workflow env root offline s).1 = .ok w) :
    ∃ usual, Settings.ofVariables env.environment = .valid usual ∧ w.dates = env.dates ∧
      ∀ c, w.classifier = some c → c = Classifier.remote usual.classifierUrl env.send := by
  unfold workflow settings at h
  cases husual : Settings.ofVariables env.environment with
  | invalid issues =>
      rw [husual] at h
      cases h
  | valid usual =>
      rw [husual] at h
      cases h
      refine ⟨usual, rfl, rfl, fun c hc => ?_⟩
      dsimp only at hc
      split at hc
      · cases hc
      · exact (Option.some.inj hc).symm

theorem answersValid_of_workflow {env : Surroundings} {offline : Bool}
    (h : (workflow env root offline s).1 = .ok w) : w.AnswersValid := by
  obtain ⟨usual, -, -, hremote⟩ := exists_of_workflow h
  intro c hc
  rw [hremote c hc]
  exact Classifier.remote_answersValid _ _

section

variable {before own : Session} {result : Reconciliation} {r : Except Failure Unit}
  (hpath : path ∈ turns batch)
  (hturn : updateEach w root (turnsBefore batch path) (before.noting [detected batch]) = (r, turn))

include hpath hturn

/-- A batch in which a path failed leaves the store as it was then. -/
theorem sameIn_of_error (hr : r ≠ .ok ()) :
    w.store.SameIn turn (handedOn w root [batch] before) := by
  cases r with
  | ok u => exact absurd rfl hr
  | error f =>
      have hrun : updateEach w root (turns batch) (before.noting [detected batch]) =
          (.error f, turn) := by
        rw [turns_eq hpath, updateEach_append, Run.bind_of_error hturn]
      obtain ⟨s', hhand, hs'⟩ := exists_handOn (sources_ne_nil hpath) hrun
      rw [handedOn, List.foldl_cons, List.foldl_nil, hhand]
      exact Store.sameIn_of_extends w.store hs'

/-- A batch in which all paths up to the one at hand could be updated leaves what was stored of its
file, unless the file comes again under another path. -/
theorem holds_of_ok (hw : w.AnswersValid) (hr : r = .ok ())
    (hown : w.updateFile path root turn = (.ok result, own))
    (hbehind : ∀ q ∈ turnsBehind batch path,
      (turn.files.resolve q).toText ≠ (turn.files.resolve path).toText) :
    w.Holds (handedOn w root [batch] before) (turn.files.resolve path).toText result.merged := by
  subst hr
  have hupdated := Workflow.updateFile_updated hw path root turn
  rw [hown] at hupdated
  obtain ⟨s₁, hone, hs₁⟩ := updateOne_of_ok hown
  have hrun : updateEach w root (turns batch) (before.noting [detected batch]) =
      updateEach w root (turnsBehind batch path) s₁ := by
    rw [turns_eq hpath, updateEach_append, Run.bind_of_ok hturn, updateEach_cons,
      Run.bind_of_ok hone]
  obtain ⟨s', hhand, hs'⟩ := exists_handOn (sources_ne_nil hpath) hrun
  rw [handedOn, List.foldl_cons, List.foldl_nil, hhand]
  refine (Workflow.holds_iff_of_sameIn (Store.sameIn_of_extends w.store hs')).mpr ?_
  refine updateEach_keeps hw (fun q hq => ?_)
    ((Workflow.holds_iff_of_sameIn (Store.sameIn_of_extends w.store hs₁)).mpr hupdated.holds)
  rw [hs₁.resolvesAs q, hupdated.resolvesAs q]
  exact hbehind q hq

end

/-- Under the watch command every batch is begun, whatever has failed in the batches before it. Each
source in it that was not deleted has its turn, and if it can be updated then, its records are what
the store has after the batch exactly if no path before it failed, or if they were there already;
only another path for the same file may have come in between. After a path that failed the store
stays as it is. -/
theorem runWatch_holds_iff {env : Surroundings} {offline : Bool}
    {earlier later : List (List Change)}
    (hworkflow : (workflow env root offline s).1 = .ok w)
    (hchanges : env.changes = earlier ++ batch :: later) :
    let before := handedOn w root earlier (s.noting (Watcher.start ⟨root, .off⟩).1)
    let after := handedOn w root [batch] before
    (∃ printed final, runWatch env root offline s = (.ok printed, final) ∧
      (handedOn w root later after).Extends final []) ∧
    ∀ c ∈ batch, c.kind ≠ .deleted → Language.isSupported c.path = true →
      ∀ r turn, updateEach w root (turnsBefore batch c.path) (before.noting [detected batch]) =
        (r, turn) →
      ∀ result own, w.updateFile c.path root turn = (.ok result, own) →
        let key := (turn.files.resolve c.path).toText
        w.Holds own key result.merged ∧
        (r ≠ .ok () → w.store.SameIn turn after) ∧
        ((∀ q ∈ turnsBehind batch c.path, (turn.files.resolve q).toText ≠ key) →
          (w.Holds after key result.merged ↔ r = .ok () ∨ w.Holds turn key result.merged)) := by
  intro before after
  have hvalid := answersValid_of_workflow hworkflow
  constructor
  · obtain ⟨printed, final, hrun, hfinal⟩ := exists_runWatch hworkflow
    rw [hchanges, handedOn_append, ← List.singleton_append, handedOn_append] at hfinal
    exact ⟨printed, final, hrun, hfinal⟩
  · intro c hc hkind hsource r turn hturn result own hown key
    have hpath := mem_turns hc hkind hsource
    have hupdated := Workflow.updateFile_updated hvalid c.path root turn
    rw [hown] at hupdated
    refine ⟨hupdated.holds, sameIn_of_error hpath hturn, fun hbehind => ?_⟩
    by_cases hr : r = .ok ()
    · exact iff_of_true (holds_of_ok hpath hturn hvalid hr hown hbehind) (.inl hr)
    · rw [Workflow.holds_iff_of_sameIn (sameIn_of_error hpath hturn hr)]
      exact (or_iff_right hr).symm

/-! ### Two batches with a missing file each -/

def cellar : Files :=
  ⟨.directory [("b.st", .file (Text.encode "\"b\"")), ("c.st", .file (Text.encode "\"c\""))], .root⟩

def modified (name : Text) : Change := ⟨.modified, ⟨false, [name]⟩⟩

/-- The missing file comes first. -/
def cellarFirst : List Change := [modified "b.st", modified "a.st"]

/-- The missing file comes last. -/
def cellarSecond : List Change := [modified "d.st", modified "c.st"]

def cellarSurroundings (changes : List (List Change)) : Surroundings :=
  ⟨fun _ _ => .nothing, fun _ _ => .timedOut, fun _ => .unreachable, [], changes, false,
    fun _ => .root⟩

def cellarSettings : Settings :=
  ⟨1048576, 5.0, 8, true, 8, 5.0, "http://127.0.0.1:5000", 60.0, ".vscode/commentsInfo.json"⟩

def cellarWork : Workflow :=
  ⟨fun _ _ => .nothing, fun _ _ => .timedOut, cellarSettings, storeOf cellarSettings .here, none⟩

def cellarRecord (content path : Text) : Record :=
  ⟨0, "pharo", content, [], path, .inline, [], (0, 0), (1, 2), []⟩

/-- The session between the batches. -/
def cellarBetween : Session :=
  handedOn cellarWork .here [cellarFirst]
    ((Session.start cellar).noting (Watcher.start ⟨.here, .off⟩).1)

theorem eq_ok_of_toOption {ε α : Type} {e : Except ε α} {a : α} (h : e.toOption = some a) :
    e = .ok a := by
  cases e with
  | error f => cases h
  | ok b => rw [Option.some.inj h]

theorem runWatch_holds_iff_cellar :
    (workflow (cellarSurroundings [cellarFirst, cellarSecond]) .here true (.start cellar)).1 =
      .ok cellarWork ∧
    cellarWork.Holds (handedOn cellarWork .here [cellarSecond] cellarBetween) "/c.st"
      [cellarRecord "c" "c.st"] := by
  have hworkflow : (workflow (cellarSurroundings [cellarFirst, cellarSecond]) .here true
      (.start cellar)).1 = .ok cellarWork := rfl
  have hchanges : (cellarSurroundings [cellarFirst, cellarSecond]).changes =
      [cellarFirst] ++ cellarSecond :: [] := rfl
  obtain ⟨-, hbatch⟩ := runWatch_holds_iff hworkflow hchanges
  have hok : (cellarWork.updateFile ⟨false, ["c.st"]⟩ .here
      (cellarBetween.noting [detected cellarSecond])).1 = .ok ⟨[], [cellarRecord "c" "c.st"]⟩ :=
    eq_ok_of_toOption (by decide +kernel)
  obtain ⟨-, -, hheld⟩ := hbatch (modified "c.st") (by decide) (by decide) (by decide) (.ok ())
    (cellarBetween.noting [detected cellarSecond]) rfl _ _ (Prod.ext hok rfl)
  exact ⟨hworkflow, (hheld (by decide +kernel)).mpr (.inl rfl)⟩

/-- A file that can be updated at any time is not, since a path before it has no file. -/
theorem cellar_lost :
    let s := (runWatch (cellarSurroundings [cellarFirst]) .here true (.start cellar)).2
    turns cellarFirst = [⟨false, ["a.st"]⟩, ⟨false, ["b.st"]⟩] ∧
    (cellarWork.updateFile ⟨false, ["b.st"]⟩ .here (.start cellar)).1 =
      .ok ⟨[], [cellarRecord "b" "b.st"]⟩ ∧
    (cellarWork.updateFile ⟨false, ["b.st"]⟩ .here s).1 = .ok ⟨[], [cellarRecord "b" "b.st"]⟩ ∧
    (cellarWork.store.load s).1 = .ok .empty ∧
    ¬ cellarWork.Holds s "/b.st" [cellarRecord "b" "b.st"] := by
  intro s
  have hload : (cellarWork.store.load s).1 = .ok .empty := eq_ok_of_toOption (by decide +kernel)
  refine ⟨by decide, eq_ok_of_toOption (by decide +kernel), eq_ok_of_toOption (by decide +kernel),
    hload, ?_⟩
  rintro ⟨b, hb, hget⟩
  cases hload.symm.trans hb
  cases hget

end Command

end Marginalia
