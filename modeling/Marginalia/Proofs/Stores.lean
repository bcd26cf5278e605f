import Marginalia.Proofs.Edits
import Marginalia.Proofs.Writability

/-!
A store in memory beside a store in a file. Whatever they are called to do, one call after the
other, they answer alike: what is in memory is at all times what the bytes of the file stand for.
-/

namespace Marginalia.Store

/-! ## Calls -/

inductive Call where
  | save (batch : Batch)
  | load
  | update (id : Int) (level : Option Text) (tags : Option (List Text))

inductive Answer where
  | saved
  | loaded (batch : Batch)
  | updated (record : Record)

/-- What is saved is valid. Ids, levels and tags of edits may be any. -/
def Call.Valid : Call → Prop
  | save batch => batch.WellFormed
  | load | update .. => True

def Call.on (store : Store) : Call → Run Answer
  | save batch => (fun _ => .saved) <$> store.save batch
  | load => .loaded <$> store.load
  | update id level tags => .updated <$> store.update id level tags

/-- The answers to calls that are made one after the other, whether or not those before failed. -/
def answers (store : Store) : List Call → Session → List (Except Failure Answer)
  | [], _ => []
  | call :: calls, s => (call.on store s).1 :: store.answers calls (call.on store s).2

/-! ## One call -/

/-- What is in memory in the one session is what the file holds in the other. -/
structure Mirrors (path : Path) (s s' : Session) : Prop where
  load : (loadFile path s').1 = .ok s.memory
  writable : Writable s'.files path

/-- Both ways to end are the same, and the file mirrors the memory again. -/
def Alike (path : Path) {α : Type} (o o' : Except Failure α × Session) : Prop :=
  o'.1 = o.1 ∧ Mirrors path o.2 o'.2

variable {path : Path} {s s' : Session}

theorem Mirrors.of_extends {t t' : Session} (h : Mirrors path s s') (ht : s.Extends t [])
    (ht' : s'.Extends t' []) : Mirrors path t t' := by
  constructor
  · rw [ht.memory]
    exact (sameIn_of_extends (file path) ht').load_eq.trans h.load
  · rw [ht'.files]
    exact h.writable

theorem Alike.map {α β : Type} {work work' : Run α} (h : Alike path (work s) (work' s'))
    (g : α → β) : Alike path ((g <$> work) s) ((g <$> work') s') := by
  rw [Run.map_apply, Run.map_apply]
  exact ⟨congrArg (g <$> ·) h.1, h.2⟩

/-- Steps that only read, and end the same in both sessions, are followed by what comes next. -/
theorem Alike.bind {α β : Type} {work work' : Run α} {next next' : α → Run β}
    {r : Except Failure α} (h : Mirrors path s s') (hwork : work.Reads s r [])
    (hwork' : work'.Reads s' r [])
    (hnext : ∀ a t t', r = .ok a → Mirrors path t t' → Alike path (next a t) (next' a t')) :
    Alike path ((work >>= next) s) ((work' >>= next') s') := by
  obtain ⟨t, hrun, ht⟩ := hwork
  obtain ⟨t', hrun', ht'⟩ := hwork'
  cases r with
  | error f =>
      rw [Run.bind_of_error hrun, Run.bind_of_error hrun']
      exact ⟨rfl, h.of_extends ht ht'⟩
  | ok a =>
      rw [Run.bind_of_ok hrun, Run.bind_of_ok hrun']
      exact hnext a t t' rfl (h.of_extends ht ht')

/-- The batch that is in memory is saved to the file. -/
theorem alike_saveFile (h : Writable s'.files path) (hb : s.memory.WellFormed) :
    Alike path (.ok (), s) (saveFile path s.memory s') := by
  obtain ⟨tree, hw⟩ := h.exists_written s.memory
  have hread := read_of_written hw
  rw [saveFile_eq, hw]
  refine ⟨rfl, (loadFile_of_read hread).trans ?_, writable_of_written hw⟩
  rw [ofBytes_dump_tidied hb.storable, hb.tidied_eq]

theorem alike_save {b : Batch} (h : Mirrors path s s') (hb : b.WellFormed) :
    Alike path (memory.save b s) ((file path).save b s') :=
  alike_saveFile (s := { s with memory := b, saves := s.saves + 1 }) h.writable hb

theorem alike_load (h : Mirrors path s s') :
    Alike path (memory.load s) ((file path).load s') := by
  obtain ⟨t', hload, ht'⟩ := reads_load (file path) s'
  rw [hload]
  exact ⟨h.load, h.of_extends (.refl s) ht'⟩

theorem alike_update (h : Mirrors path s s') (id : Int) (level : Option Text)
    (tags : Option (List Text)) :
    Alike path (memory.update id level tags s) ((file path).update id level tags s') := by
  have hload : (file path).load.Reads s' (.ok s.memory) [] := by
    rw [← h.load]
    exact reads_load (file path) s'
  apply Alike.bind h (reads_load memory s) hload
  intro b t t' hb ht
  cases hb
  apply Alike.bind ht (Run.reads_noted [] _ t) (Run.reads_noted [] _ t')
  intro edited u u' hedited hu
  obtain ⟨e, hfound⟩ := Batch.exists_edit?_of_editNamed hedited
  have hkeeps : edited.1.All (file path).Keeps := keeps_of_edit? (keeps_of_load h.load) hfound
  exact (alike_saveFile (s := { u with memory := edited.1 }) hu.writable hkeeps).map
    fun _ => edited.2

/-- The answers to one call are the same, and the file mirrors the memory after it. -/
theorem Call.alike {call : Call} (h : Mirrors path s s') (hcall : call.Valid) :
    Alike path (call.on memory s) (call.on (file path) s') := by
  cases call with
  | save b => exact (alike_save h hcall).map fun _ => Answer.saved
  | load => exact (alike_load h).map Answer.loaded
  | update id level tags => exact (alike_update h id level tags).map Answer.updated

/-! ## Any number of calls -/

theorem mirrors_of_missing (hfresh : s.memory = .empty)
    (hmissing : s'.files.tree.read (s'.files.base.join path) = .error .missing)
    (hwritable : Writable s'.files path) : Mirrors path s s' := by
  refine ⟨?_, hwritable⟩
  obtain ⟨t', hload, -⟩ := reads_loadFile path s'
  rw [hload, hmissing, hfresh]

theorem Mirrors.answers_eq {calls : List Call} (h : Mirrors path s s')
    (hcalls : ∀ call ∈ calls, call.Valid) :
    (file path).answers calls s' = memory.answers calls s := by
  induction calls generalizing s s' with
  | nil => rfl
  | cons call calls ih =>
      obtain ⟨hcall, hcalls⟩ := List.forall_mem_cons.mp hcalls
      obtain ⟨hanswer, hafter⟩ := Call.alike h hcall
      rw [answers, answers, hanswer, ih hafter hcalls]

/-- A fresh store in memory and a store whose file is missing and can be written give the same
answers to any calls, step by step. -/
theorem answers_agree {calls : List Call} (hfresh : s.memory = .empty)
    (hmissing : s'.files.tree.read (s'.files.base.join path) = .error .missing)
    (hwritable : Writable s'.files path) (hcalls : ∀ call ∈ calls, call.Valid) :
    (file path).answers calls s' = memory.answers calls s :=
  (mirrors_of_missing hfresh hmissing hwritable).answers_eq hcalls

/-- Calls of each kind: a record that is not there, a level that there is not, an empty tag. -/
def hardCalls : List Call :=
  [.load, .update 0 none none, .save .hardBatch, .update 7 (some "none") none,
    .update Batch.hardRecord.id (some "class") (some ["", "x"]), .load]

def hardPath : Path := ⟨false, ["a b", "é.json"]⟩

theorem writable_hardPath : Writable Batch.emptyFiles hardPath := by
  have hmake : Batch.emptyFiles.tree.makeDirectories Batch.emptyFiles.base false ["a b"] 1 =
      .ok (.directory [("a b", .directory [])]) := by
    rw [FileTree.makeDirectories]
    rfl
  exact ⟨.empty, _, written_eq_ok.mpr ⟨_, hmake, rfl⟩⟩

theorem answers_agree_hardCalls :
    (Session.start Batch.emptyFiles).memory = .empty ∧
    Batch.emptyFiles.tree.read (Batch.emptyFiles.base.join hardPath) = .error .missing ∧
    Writable Batch.emptyFiles hardPath ∧ (∀ call ∈ hardCalls, call.Valid) ∧
    (file hardPath).answers hardCalls (.start Batch.emptyFiles) =
      [.ok (.loaded .empty), .error (.recordMissing 0), .ok .saved, .error (.level ⟨"none"⟩),
        .ok (.updated { Batch.hardRecord with level := .class, tags := ["x"] }),
        .ok (.loaded ⟨[("/p\"\\",
          [{ Batch.hardRecord with level := .class, tags := ["x"] }, Batch.hardRecord]), ("", [])],
          by decide⟩)] := by
  have hvalid : ∀ call ∈ hardCalls, call.Valid := by
    simp only [hardCalls, List.forall_mem_cons, Call.Valid, Batch.hardBatch_wellFormed, true_and]
    intro call hcall
    cases hcall
  refine ⟨rfl, rfl, writable_hardPath, hvalid, ?_⟩
  rw [answers_agree (s := .start Batch.emptyFiles) rfl rfl writable_hardPath hvalid]
  rfl

end Marginalia.Store
