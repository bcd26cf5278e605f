import Marginalia.Classification.Remote
import Marginalia.Proofs.Resolution
import Marginalia.Proofs.StoredForm

/-!
Round trips of batches: through their texts, through a store, and through a classifier that sends
back what it is sent.
-/

namespace Marginalia

/-! ## Stores -/

namespace Store

/-- The text of a batch is never taken for an empty store. -/
theorem all_isBlankByte_dump (b : Batch) : b.dump.encode.all isBlankByte = false := by
  obtain ⟨rest, hrest⟩ : ∃ rest, b.dump = '{' :: rest := by
    rw [Batch.dump, Batch.toJson, Json.indented]
    cases b.files with
    | nil => exact ⟨_, rfl⟩
    | cons f fs => exact ⟨_, rfl⟩
  rw [hrest]
  rfl

theorem ofBytes_dump_tidied {b : Batch} (h : b.Storable) (path : Path) :
    ofBytes path b.dump.encode = .ok b.tidied := by
  rw [ofBytes, all_isBlankByte_dump, Batch.ofBytes_dump_tidied h]
  rfl

theorem read_of_written {files : Files} {path : Path} {b : Batch} {tree : FileTree}
    (h : written files path b = .ok tree) :
    tree.read (files.base.join path) = .ok b.dump.encode := by
  obtain ⟨above, -, hwrite⟩ := written_eq_ok.mp h
  exact FileTree.read_of_write hwrite

/-- The note that a store makes of a batch that it has saved. -/
def savedNote (path : Path) (b : Batch) : LogEntry :=
  .info ("Saved " ++ Text.ofNat b.size ++ " file(s) to " ++ path.toText)

theorem saveFile_eq (path : Path) (b : Batch) (s : Session) :
    saveFile path b s = match written s.files path b with
      | .ok tree =>
        (.ok (), { s with files := { s.files with tree }, log := s.log ++ [savedNote path b] })
      | .error e => (.error (Failure.storeUnwritable path.toText e), s) := by
  change (match written s.files path b with
    | .ok tree => (do
        modify fun (s : Session) => { s with files := { s.files with tree } }
        Run.note [savedNote path b] : Run Unit)
    | .error e => throw (Failure.storeUnwritable path.toText e)) s = _
  cases written s.files path b <;> rfl

theorem loadFile_of_read {path : Path} {s : Session} {bytes : Bytes}
    (h : s.files.tree.read (s.files.base.join path) = .ok bytes) :
    (loadFile path s).1 = ofBytes path bytes := by
  have hrun : loadFile path s = Run.noted ([], ofBytes path bytes) s := by
    simp only [loadFile, bind, ExceptT.bind, ExceptT.mk, StateT.bind]
    change (ExceptT.bindCont _ (Except.ok s) : StateM Session _) s = _
    simp only [ExceptT.bindCont, h]
  rw [hrun, Run.noted]
  cases ofBytes path bytes <;> rfl

/-- What a store keeps of a batch. A file keeps no empty tags. -/
def kept : Store → Batch → Batch
  | memory, b => b
  | file _, b => b.tidied

/-- What a store asks of the batches that it is to give back. -/
def CanHold : Store → Batch → Prop
  | memory, _ => True
  | file _, b => b.Storable

variable {store : Store} {b : Batch}

theorem canHold_of_storable (h : b.Storable) : store.CanHold b := by
  cases store with
  | memory => trivial
  | file path => exact h

theorem kept_of_wellFormed (h : b.WellFormed) : store.kept b = b := by
  cases store with
  | memory => rfl
  | file path => exact h.tidied_eq

/-- What a store has saved it loads. It fails to save only where its file cannot be written, and
then nothing has changed. -/
theorem load_save_kept (h : store.CanHold b) (s : Session) :
    (∃ s', store.save b s = (.ok (), s') ∧ (store.load s').1 = .ok (store.kept b) ∧
      s'.questions = s.questions) ∨
      ∃ path e, store = .file path ∧ written s.files path b = .error e ∧
        store.save b s = (.error (.storeUnwritable path.toText e), s) := by
  cases store with
  | memory => exact .inl ⟨_, rfl, rfl, rfl⟩
  | file path =>
      have hsave := saveFile_eq path b s
      cases hw : written s.files path b with
      | error e =>
          rw [hw] at hsave
          exact .inr ⟨path, e, rfl, hw, hsave⟩
      | ok tree =>
          rw [hw] at hsave
          have hread : tree.read (s.files.base.join path) = .ok b.dump.encode := read_of_written hw
          exact .inl ⟨_, hsave, (loadFile_of_read hread).trans (ofBytes_dump_tidied h path), rfl⟩

theorem load_save (h : b.WellFormed) (store : Store) (s : Session) :
    (∃ s', store.save b s = (.ok (), s') ∧ (store.load s').1 = .ok b) ∨
      ∃ path e, store = .file path ∧ written s.files path b = .error e ∧
        store.save b s = (.error (.storeUnwritable path.toText e), s) := by
  have hcan : store.CanHold b := canHold_of_storable h.storable
  have hsave := load_save_kept hcan s
  rw [kept_of_wellFormed h] at hsave
  rcases hsave with ⟨s', hdone, hload, -⟩ | hfail
  · exact .inl ⟨s', hdone, hload⟩
  · exact .inr hfail

end Store

/-! ## Classifiers -/

/-- The network of an address that sends back what it is sent. -/
def Response.echo (status : Int) (r : Request) : Response := .answered status r.body.encode

namespace Classifier

variable {address : Text} {status : Int}

theorem read_echo {α : Type} {read : Json → Validated α} {v : Json} {a : α} {q : Question}
    (hq : Request.payload q = v.compact) (hv : v.Fits Json.maxDepth) (ha : read v = .valid a)
    (hlow : 200 ≤ status) (hhigh : status < 300) (url : Text) :
    (Response.echo status (Request.ofQuestion address q)).read url read = .ok a := by
  rw [Response.echo, Response.read, if_pos (by simp; omega), Request.ofQuestion, hq,
    readJson_compact hv, ha]
  rfl

theorem file_echo {rs : List Record} (h : ∀ r ∈ rs, r.WellFormed) (hlow : 200 ≤ status)
    (hhigh : status < 300) : (remote address (Response.echo status)).file rs = .ok rs := by
  cases rs with
  | nil => rfl
  | cons r rs =>
      exact read_echo (q := .file (r :: rs)) rfl (Record.fits_listToJson _ 197)
        (Record.listOfJson_listToJson h) hlow hhigh _

theorem all_echo {b : Batch} (h : b.WellFormed) (hlow : 200 ≤ status) (hhigh : status < 300) :
    (remote address (Response.echo status)).all b = .ok b :=
  read_echo (q := .all b) rfl b.fits_toJson (Batch.ofJson_toJson h) hlow hhigh _

end Classifier

/-! ## Round trips -/

namespace Batch

/-- A batch comes back as it was from either of its texts, from every store that could save it, and
from a classifier that sends back what it is sent. -/
theorem round_trips (b : Batch) (h : b.WellFormed) :
    ofBytes b.dump.encode = .valid b ∧
    ofBytes (Request.payload (.all b)).encode = .valid b ∧
    (∀ (store : Store) (s : Session),
      (∃ s', store.save b s = (.ok (), s') ∧ (store.load s').1 = .ok b) ∨
        ∃ path e, store = .file path ∧ Store.written s.files path b = .error e ∧
          store.save b s = (.error (.storeUnwritable path.toText e), s)) ∧
    ∀ (address : Text) (status : Int), 200 ≤ status → status < 300 →
      (Classifier.remote address (Response.echo status)).all b = .ok b ∧
      ∀ rs : List Record, (∀ r ∈ rs, r.WellFormed) →
        (Classifier.remote address (Response.echo status)).file rs = .ok rs := by
  refine ⟨ofBytes_dump h, ?_, Store.load_save h, fun address status hlow hhigh => ⟨?_, ?_⟩⟩
  · exact (readJson_compact b.fits_toJson).trans (ofJson_toJson h)
  · exact Classifier.all_echo h hlow hhigh
  · exact fun rs hrs => Classifier.file_echo hrs hlow hhigh

/-- A record with all kinds of characters that are escaped, and with large integers. -/
def hardRecord : Record where
  id := -123456789012345678901234567890
  language := "java"
  content := "a\n\t\x01\"\\/ é漢😀\x7f b"
  className := ""
  relativePath := "a b/é.java"
  level := .method
  tags := ["x\n", " "]
  rows := (0, 99999999999999999999)
  columns := (-7, 0)
  commitDate := ""

def hardBatch : Batch := ⟨[("/p\"\\", [hardRecord, hardRecord]), ("", [])], by decide⟩

theorem hardRecord_wellFormed : hardRecord.WellFormed :=
  ⟨by decide, by decide, by decide, by decide, by decide⟩

theorem hardBatch_wellFormed : hardBatch.WellFormed := by
  simp only [WellFormed, hardBatch, List.forall_mem_cons]
  refine ⟨⟨hardRecord_wellFormed, hardRecord_wellFormed, ?_⟩, ?_, ?_⟩
  · intro r hr
    cases hr
  · intro r hr
    cases hr
  · intro f hf
    cases hf

/-- An empty directory, and a place in it for a store. -/
def emptyFiles : Files := ⟨.directory [], .root⟩

def hardStore : Store := .file ⟨false, ["a b", "é.json"]⟩

theorem round_trips_hardBatch :
    hardBatch.WellFormed ∧
    ofBytes hardBatch.dump.encode = .valid hardBatch ∧
    ofBytes (Request.payload (.all hardBatch)).encode = .valid hardBatch ∧
    (∃ s', hardStore.save hardBatch (.start emptyFiles) = (.ok (), s') ∧
      (hardStore.load s').1 = .ok hardBatch) ∧
    (Classifier.remote "http://a/" (Response.echo 200)).all hardBatch = .ok hardBatch ∧
    (Classifier.remote "http://a/" (Response.echo 200)).file [hardRecord] = .ok [hardRecord] := by
  have h := round_trips hardBatch hardBatch_wellFormed
  have hecho := h.2.2.2 "http://a/" 200 (by decide) (by decide)
  refine ⟨hardBatch_wellFormed, h.1, h.2.1, ?_, hecho.1, hecho.2 _ ?_⟩
  · rcases h.2.2.1 hardStore (.start emptyFiles) with hs | ⟨path, e, hp, hfail, -⟩
    · exact hs
    · cases hp
      have hmake : emptyFiles.tree.makeDirectories emptyFiles.base false ["a b"] 1 =
          .ok (.directory [("a b", .directory [])]) := by
        rw [FileTree.makeDirectories]
        rfl
      change (emptyFiles.tree.makeDirectories emptyFiles.base false ["a b"] 1 >>= _) = _ at hfail
      rw [hmake] at hfail
      cases hfail
  · intro r hr
    rw [List.mem_singleton.mp hr]
    exact hardRecord_wellFormed

end Batch

end Marginalia
