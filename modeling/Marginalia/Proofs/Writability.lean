import Marginalia.Proofs.RoundTrip

/-!
Writing again. The directories that a store makes for its file are there, and so is the file, so a
store that could be written once can be written at any time after.
-/

namespace Marginalia

namespace FileTree

variable {t t' : FileTree} {base p : Path} {at_ front names reached d : List Text}
  {last name : Text} {node : FileTree} {es : List (Text × FileTree)}
  {follow : List Text → List Text → Except SystemCause Place}

/-! ## The last name of a way -/

/-- The way leads to a directory with an entry of that name. -/
def HasEntry (last : Text) (way : Except SystemCause Place) : Prop :=
  ∃ d es, way = .ok ⟨d, some (directory es)⟩ ∧
    (last = Path.up ∨ (childNamed? last es).isSome = true)

theorem hasEntry_of_descend
    (hf : ∀ at_ front, follow at_ (front ++ [last]) = .ok ⟨reached, some node⟩ →
      HasEntry last (follow at_ front))
    (h : descend t follow at_ (front ++ [last]) = .ok ⟨reached, some node⟩) :
    HasEntry last (descend t follow at_ front) := by
  induction front generalizing at_ with
  | nil =>
      obtain ⟨es, hes⟩ := exists_directory_of_descend h
      have hchild : t.node? (at_ ++ [last]) = childNamed? last es := by
        rw [node?_concat, hes]
        rfl
      rw [List.nil_append, descend_cons hes, hchild] at h
      refine ⟨at_, es, by rw [descend, hes], ?_⟩
      split at h
      · exact .inl ‹_›
      · right
        cases hc : childNamed? last es with
        | some below => rfl
        | none =>
            rw [hc] at h
            cases h
  | cons name rest ih =>
      obtain ⟨es, hes⟩ := exists_directory_of_descend h
      rw [List.cons_append, descend_cons hes] at h
      rw [descend_cons hes]
      split at h
      · rename_i hup
        rw [if_pos hup]
        exact ih h
      · rename_i hup
        rw [if_neg hup]
        split at h
        · rw [← List.append_assoc] at h
          exact hf _ _ h
        · exact ih h
        · rw [if_neg (by simp)] at h
          cases h

theorem hasEntry_of_locateWithin {links : Nat}
    (h : locateWithin t links at_ (front ++ [last]) = .ok ⟨reached, some node⟩) :
    HasEntry last (locateWithin t links at_ front) := by
  induction links generalizing at_ front with
  | zero => cases h
  | succ links ih => exact hasEntry_of_descend (fun _ _ => ih) h

/-- What a path leads to is an entry of the directory that the path above leads to. -/
theorem hasEntry_of_locate (hlast : p.names.getLast? = some last)
    (h : t.locate p = .ok ⟨reached, some node⟩) : HasEntry last (t.locate p.parent) := by
  obtain ⟨front, hfront⟩ := List.getLast?_eq_some_iff.mp hlast
  rw [locate, hfront] at h
  rw [locate, Path.parent, hfront, List.dropLast_concat]
  exact hasEntry_of_locateWithin h

theorem descend_concat (hup : name ≠ Path.up) (hnone : childNamed? name es = none)
    (hf : ∀ at_ front, follow at_ front = .ok ⟨d, some (directory es)⟩ →
      follow at_ (front ++ [name]) = .ok ⟨d ++ [name], none⟩)
    (h : descend t follow at_ front = .ok ⟨d, some (directory es)⟩) :
    descend t follow at_ (front ++ [name]) = .ok ⟨d ++ [name], none⟩ := by
  induction front generalizing at_ with
  | nil =>
      obtain ⟨rfl, hes⟩ := Place.mk.inj (Except.ok.inj h)
      rw [List.nil_append, descend_cons hes, if_neg hup, node?_concat, hes, Option.bind_some,
        entries, hnone]
      rfl
  | cons first rest ih =>
      obtain ⟨es', hes⟩ := exists_directory_of_descend h
      rw [descend_cons hes] at h
      rw [List.cons_append, descend_cons hes]
      split at h
      · rename_i hfirst
        rw [if_pos hfirst]
        exact ih h
      · rename_i hfirst
        rw [if_neg hfirst]
        split at h
        · rw [← List.append_assoc]
          exact hf _ _ h
        · exact ih h
        · split at h <;> cases h

theorem locateWithin_concat {links : Nat} (hup : name ≠ Path.up)
    (hnone : childNamed? name es = none)
    (h : locateWithin t links at_ front = .ok ⟨d, some (directory es)⟩) :
    locateWithin t links at_ (front ++ [name]) = .ok ⟨d ++ [name], none⟩ := by
  induction links generalizing at_ front with
  | zero => cases h
  | succ links ih => exact descend_concat hup hnone (fun _ _ => ih) h

/-! ## Directories that are made -/

theorem isDirectory_iff :
    t.isDirectory p = true ↔ ∃ d es, t.locate p = .ok ⟨d, some (directory es)⟩ := by
  unfold isDirectory
  constructor
  · intro h
    split at h
    · rename_i d es hd
      exact ⟨d, es, hd⟩
    · cases h
  · rintro ⟨d, es, h⟩
    rw [h]

theorem isDirectory_of_makeDirectory (h : t.makeDirectory p = .ok t') :
    t'.isDirectory p = true := by
  obtain ⟨name, d, es, hlast, habove, hup, hnone, rfl⟩ := exists_of_makeDirectory h
  obtain ⟨front, hfront⟩ := List.getLast?_eq_some_iff.mp hlast
  have hfree : t.locate p = .ok ⟨d ++ [name], none⟩ := by
    rw [locate, Path.parent, hfront, List.dropLast_concat] at habove
    rw [locate, hfront]
    exact locateWithin_concat hup hnone habove
  have hplain : ∀ target, directory [] ≠ link target := fun target ht => by cases ht
  exact isDirectory_iff.mpr ⟨_, _, locate_insert rfl hplain hfree fun es hes => by cases hes⟩

theorem isDirectory_of_makeDirectories {absolute : Bool} {count : Nat}
    (h : t.makeDirectories base absolute names count = .ok t') :
    t'.isDirectory (base.join ⟨absolute, names.take count⟩) = true := by
  obtain ⟨above, hmake | ⟨rfl, hdirectory⟩, -⟩ := settles_of_makeDirectories h
  · exact isDirectory_of_makeDirectory hmake
  · exact hdirectory

/-- Where there is a directory none is made. -/
theorem makeDirectory_of_locate (h : t.locate p = .ok ⟨d, some (directory es)⟩) :
    t.makeDirectory p = .error .taken := by
  unfold makeDirectory
  cases hlast : p.names.getLast? with
  | none => rfl
  | some last =>
      obtain ⟨above, es', habove, hentry⟩ := hasEntry_of_locate hlast h
      have htaken : (decide (last = Path.up) || (childNamed? last es').isSome) = true := by
        rw [Bool.or_eq_true, decide_eq_true_eq]
        exact hentry
      simp only [habove, bind, Except.bind, htaken, if_true]

theorem makeDirectories_of_isDirectory {absolute : Bool} {count : Nat}
    (h : t.isDirectory (base.join ⟨absolute, names.take count⟩) = true) :
    t.makeDirectories base absolute names count = .ok t := by
  obtain ⟨d, es, hd⟩ := isDirectory_iff.mp h
  unfold makeDirectories
  dsimp only
  rw [makeDirectory_of_locate hd]
  simp only [h, if_true]

theorem exists_write_iff {content : Bytes} : (∃ t', t.write p content = .ok t') ↔
    ∃ place, t.locate p = .ok place ∧ ∀ es, place.node ≠ some (directory es) := by
  constructor
  · rintro ⟨t', h⟩
    obtain ⟨place, hplace, h⟩ := Sequence.bind_eq_ok.mp h
    refine ⟨place, hplace, fun es hes => ?_⟩
    rw [hes] at h
    cases h
  · rintro ⟨place, hplace, hn⟩
    refine ⟨t.insert place.names (file content), ?_⟩
    rw [write, hplace]
    dsimp only [bind, Except.bind]
    split
    · rename_i es hes
      exact absurd hes (hn es)
    · rfl

end FileTree

namespace Store

variable {files : Files} {path : Path} {b : Batch} {tree : FileTree}

/-- A store can be written at the path. -/
def Writable (files : Files) (path : Path) : Prop := ∃ b tree, written files path b = .ok tree

/-- What can be written does not depend on the batch. -/
theorem Writable.exists_written (h : Writable files path) (b : Batch) :
    ∃ tree, written files path b = .ok tree := by
  obtain ⟨b', tree', hw⟩ := h
  obtain ⟨above, habove, hwrite⟩ := written_eq_ok.mp hw
  obtain ⟨tree, htree⟩ := FileTree.exists_write_iff.mpr (FileTree.exists_write_iff.mp ⟨_, hwrite⟩)
  exact ⟨tree, written_eq_ok.mpr ⟨above, habove, htree⟩⟩

theorem names_ne_nil_of_written (h : written files path b = .ok tree) : path.names ≠ [] := by
  intro hnil
  obtain ⟨above, habove, hwrite⟩ := written_eq_ok.mp h
  have hdirectory := FileTree.isDirectory_of_makeDirectories habove
  have hself : path.parent = path := by
    rw [Path.parent, hnil, List.dropLast_nil, ← hnil]
  rw [List.take_length, hself] at hdirectory
  obtain ⟨d, es, hes⟩ := FileTree.isDirectory_iff.mp hdirectory
  obtain ⟨place, hplace, hn⟩ := FileTree.exists_write_iff.mp ⟨_, hwrite⟩
  rw [hes] at hplace
  cases hplace
  exact hn es rfl

theorem join_parent (base : Path) (h : path.names ≠ []) :
    base.join path.parent = (base.join path).parent := by
  unfold Path.join Path.parent
  split
  · rfl
  · exact congrArg _ (List.dropLast_append_of_ne_nil h).symm

/-- Where a store has been written it can be written again. -/
theorem writable_of_written (h : written files path b = .ok tree) :
    Writable { files with tree } path := by
  have hnames := names_ne_nil_of_written h
  obtain ⟨reached, hplace⟩ := FileTree.exists_locate_of_read (read_of_written h)
  have hlast : ∃ last, (files.base.join path).names.getLast? = some last := by
    rw [← Option.isSome_iff_exists, List.getLast?_isSome]
    unfold Path.join
    split
    · exact hnames
    · exact List.append_ne_nil_of_right_ne_nil _ hnames
  obtain ⟨last, hlast⟩ := hlast
  -- The file is an entry of the directory above, so none has to be made.
  obtain ⟨above, es, habove, -⟩ := FileTree.hasEntry_of_locate hlast hplace
  have hdirectory : tree.isDirectory (files.base.join path.parent) = true := by
    rw [join_parent files.base hnames]
    exact FileTree.isDirectory_iff.mpr ⟨above, es, habove⟩
  obtain ⟨tree', hwrite⟩ : ∃ tree', tree.write (files.base.join path) b.dump.encode = .ok tree' :=
    FileTree.exists_write_iff.mpr ⟨_, hplace, fun es hes => by cases hes⟩
  refine ⟨b, tree', written_eq_ok.mpr ⟨tree, ?_, hwrite⟩⟩
  apply FileTree.makeDirectories_of_isDirectory
  rw [List.take_length]
  exact hdirectory

end Store

end Marginalia
