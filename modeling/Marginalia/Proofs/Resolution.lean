import Marginalia.Proofs.FileTree
import Marginalia.Proofs.Sequence
import Marginalia.Workspace.Store

/-!
Paths before and after a store is written. A store makes directories and files but no links, and
the links on its way are all that decides what a path stands for.
-/

namespace Marginalia

namespace FileTree

/-- The trees have the same links below their roots. -/
def SameLinks (t t' : FileTree) : Prop :=
  ∀ at_ name target, t.node? (at_ ++ [name]) = some (link target) ↔
    t'.node? (at_ ++ [name]) = some (link target)

variable {t t' t'' : FileTree} {base p : Path}

theorem SameLinks.refl (t : FileTree) : SameLinks t t := fun _ _ _ => Iff.rfl

theorem SameLinks.trans (h : SameLinks t t') (h' : SameLinks t' t'') : SameLinks t t'' :=
  fun at_ name target => (h at_ name target).trans (h' at_ name target)

/-! ## Resolving -/

section

variable {follow follow' : List Text → List Text → List Text} {at_ : List Text} {name : Text}
  {rest : List Text}

theorem descendLoosely_of_link {target : Text} (hup : name ≠ Path.up)
    (h : t.node? (at_ ++ [name]) = some (link target)) :
    descendLoosely t follow at_ (name :: rest) =
      follow (linkStart at_ (Path.ofText target)) ((Path.ofText target).names ++ rest) := by
  rw [descendLoosely, if_neg hup, h]

theorem descendLoosely_of_not_link (hup : name ≠ Path.up)
    (h : ∀ target, t.node? (at_ ++ [name]) ≠ some (link target)) :
    descendLoosely t follow at_ (name :: rest) =
      descendLoosely t follow (at_ ++ [name]) rest := by
  rw [descendLoosely, if_neg hup]
  split
  · rename_i target ht
    exact absurd ht (h target)
  · rfl

theorem SameLinks.descendLoosely_eq (h : SameLinks t t')
    (hf : ∀ at_ names, follow' at_ names = follow at_ names) (at_ names : List Text) :
    descendLoosely t' follow' at_ names = descendLoosely t follow at_ names := by
  induction names generalizing at_ with
  | nil => rfl
  | cons name rest ih =>
      by_cases hup : name = Path.up
      · rw [descendLoosely, descendLoosely, if_pos hup, if_pos hup]
        exact ih _
      · by_cases hl : ∃ target, t.node? (at_ ++ [name]) = some (link target)
        · obtain ⟨target, ht⟩ := hl
          rw [descendLoosely_of_link hup ht, descendLoosely_of_link hup ((h _ _ _).mp ht)]
          exact hf _ _
        · have hfree : ∀ target, t.node? (at_ ++ [name]) ≠ some (link target) :=
            fun target ht => hl ⟨target, ht⟩
          rw [descendLoosely_of_not_link hup hfree, descendLoosely_of_not_link hup
            fun target ht => hfree target ((h _ _ _).mpr ht)]
          exact ih _

end

theorem SameLinks.resolveWithin_eq (h : SameLinks t t') (links : Nat) (at_ names : List Text) :
    resolveWithin t' links at_ names = resolveWithin t links at_ names := by
  induction links generalizing at_ names with
  | zero => rfl
  | succ links ih => exact h.descendLoosely_eq ih at_ names

/-- Only links decide where a path leads. -/
theorem SameLinks.resolve_eq (h : SameLinks t t') (base p : Path) :
    t'.resolve base p = t.resolve base p := by
  rw [resolve, resolve, h.resolveWithin_eq]

/-! ## What exists -/

/-- A place is one that a way leads to, unless the root itself is a link. -/
theorem found_of_locate {place : Place} (h : t.locate p = .ok place) :
    Found t place ∨ ∃ target, t = link target ∧ place = ⟨[], some (link target)⟩ := by
  by_cases hroot : ∃ target, t = link target
  · obtain ⟨target, rfl⟩ := hroot
    have hnames := locateWithin_link h
    rw [locate, hnames] at h
    cases h
    exact .inr ⟨target, rfl, rfl⟩
  · have hreached : Reached t [] := ⟨fun target ht => hroot ⟨target, Option.some.inj ht⟩, .inl rfl⟩
    exact .inl (locateWithin_found hreached h)

section

variable {follow : List Text → List Text → Except SystemCause Place}
  {follow' : List Text → List Text → List Text} {at_ names reached : List Text} {node : FileTree}

/-- A way that leads to something is the same whether or not it may lead nowhere. -/
theorem descendLoosely_of_descend
    (hf : ∀ at_ names, follow at_ names = .ok ⟨reached, some node⟩ → follow' at_ names = reached)
    (h : descend t follow at_ names = .ok ⟨reached, some node⟩) :
    descendLoosely t follow' at_ names = reached := by
  induction names generalizing at_ with
  | nil => exact congrArg Place.names (Except.ok.inj h)
  | cons name rest ih =>
      obtain ⟨es, hes⟩ := exists_directory_of_descend h
      rw [descend_cons hes] at h
      split at h
      · rename_i hup
        rw [descendLoosely, if_pos hup]
        exact ih h
      · rename_i hup
        split at h
        · rename_i target hlink
          rw [descendLoosely_of_link hup hlink]
          exact hf _ _ h
        · rename_i below hlink hbelow
          rw [descendLoosely_of_not_link hup fun target ht =>
            hlink target (Option.some.inj (hbelow.symm.trans ht))]
          exact ih h
        · split at h <;> cases h

theorem resolveWithin_of_locateWithin {links : Nat}
    (h : locateWithin t links at_ names = .ok ⟨reached, some node⟩) :
    resolveWithin t links at_ names = reached := by
  induction links generalizing at_ names with
  | zero => cases h
  | succ links ih => exact descendLoosely_of_descend (fun _ _ => ih) h

/-- Resolving a path that leads to something gives the place to which it leads. -/
theorem resolve_of_locate (h : t.locate (base.join p) = .ok ⟨reached, some node⟩) :
    t.resolve base p = ⟨true, reached⟩ :=
  congrArg (Path.mk true) (resolveWithin_of_locateWithin h)

theorem up_not_mem_linkStart {target : Path} (h : Path.up ∉ at_) :
    Path.up ∉ linkStart at_ target := by
  unfold linkStart
  split
  · exact List.not_mem_nil
  · exact h

theorem up_not_mem_descendLoosely
    (hf : ∀ at_ names, Path.up ∉ at_ → Path.up ∉ follow' at_ names) (h : Path.up ∉ at_) :
    Path.up ∉ descendLoosely t follow' at_ names := by
  induction names generalizing at_ with
  | nil => exact h
  | cons name rest ih =>
      rw [descendLoosely]
      split
      · exact ih fun hup => h (List.dropLast_subset at_ hup)
      · rename_i hname
        split
        · exact hf _ _ (up_not_mem_linkStart h)
        · refine ih fun hup => ?_
          rcases List.mem_append.mp hup with hup | hup
          · exact h hup
          · exact hname (List.mem_singleton.mp hup).symm

theorem up_not_mem_foldl_step (h : Path.up ∉ at_) : Path.up ∉ names.foldl Path.step at_ := by
  induction names generalizing at_ with
  | nil => exact h
  | cons name rest ih =>
      apply ih
      unfold Path.step
      split
      · exact fun hup => h (List.dropLast_subset at_ hup)
      · rename_i hname
        simp only [List.mem_append, List.mem_singleton, not_or]
        exact ⟨h, Ne.symm hname⟩

theorem up_not_mem_resolveWithin {links : Nat} (h : Path.up ∉ at_) :
    Path.up ∉ resolveWithin t links at_ names := by
  induction links generalizing at_ names with
  | zero => exact up_not_mem_foldl_step h
  | succ links ih => exact up_not_mem_descendLoosely (fun _ _ => ih) h

theorem up_not_mem_resolve (t : FileTree) (base p : Path) : Path.up ∉ (t.resolve base p).names :=
  up_not_mem_resolveWithin List.not_mem_nil

/-- Names without double dots, none of which is that of a link. -/
theorem descendLoosely_eq_append (hup : Path.up ∉ names)
    (hlink : ∀ front target, front <+: names → t.node? (at_ ++ front) ≠ some (link target)) :
    descendLoosely t follow' at_ names = at_ ++ names := by
  induction names generalizing at_ with
  | nil => exact (List.append_nil at_).symm
  | cons name rest ih =>
      have hname : name ≠ Path.up := fun h => hup (h ▸ List.mem_cons_self)
      have hfirst : ∀ target, t.node? (at_ ++ [name]) ≠ some (link target) := fun target =>
        hlink [name] target (List.prefix_append [name] rest)
      rw [descendLoosely_of_not_link hname hfirst,
        ih (fun h => hup (List.mem_cons_of_mem name h)), List.append_assoc, List.singleton_append]
      intro front target hfront
      rw [List.append_assoc, List.singleton_append]
      exact hlink (name :: front) target (List.prefix_cons_inj name |>.mpr hfront)

end

theorem exists_locate_of_read {content : Bytes} (h : t.read p = .ok content) :
    ∃ reached, t.locate p = .ok ⟨reached, some (file content)⟩ := by
  obtain ⟨⟨reached, node⟩, hlocate, hnode⟩ := Sequence.bind_eq_ok.mp h
  split at hnode
  · rename_i own hown
    cases hnode
    exact ⟨reached, hown ▸ hlocate⟩
  · cases hnode
  · cases hnode

/-- A file stands where the resolution of its path says. -/
theorem node?_resolve_of_read {content : Bytes} (h : t.read (base.join p) = .ok content) :
    t.node? (t.resolve base p).names = some (file content) := by
  obtain ⟨reached, hlocate⟩ := exists_locate_of_read h
  rw [resolve_of_locate hlocate]
  rcases found_of_locate hlocate with ⟨hfound, -⟩ | ⟨target, -, hplace⟩
  · exact hfound.symm
  · cases hplace

/-- A path to a file that is its own resolution passes no link, and so all that lies on it is its
own resolution too. -/
theorem resolve_eq_self_of_prefix {q : Path} {content : Bytes} (hp : t.resolve base p = p)
    (hread : t.read p = .ok content) (hq : q.absolute = true) (hbegins : q.names <+: p.names) :
    t.resolve base q = q := by
  have hjoin : ∀ q : Path, q.absolute = true → base.join q = q := fun q hq => by
    rw [Path.join, if_pos hq]
  have habsolute : p.absolute = true := by rw [← hp]; rfl
  have hup : Path.up ∉ p.names := hp ▸ up_not_mem_resolve t base p
  have hfile := node?_resolve_of_read ((congrArg t.read (hjoin p habsolute)).trans hread)
  rw [hp] at hfile
  have hfree : ∀ front target, front <+: p.names → t.node? front ≠ some (link target) := by
    rintro front target ⟨back, hback⟩ hlink
    rw [← hback, node?_append, hlink, Option.bind_some] at hfile
    cases back with
    | nil => cases hfile
    | cons name back => cases hfile
  have hresolved : resolveWithin t (maxLinks + 1) [] q.names = q.names := by
    apply descendLoosely_eq_append (fun h => hup (hbegins.subset h))
    intro front target hfront
    exact hfree front target (hfront.trans hbegins)
  rw [resolve, hjoin q hq, hresolved, ← hq]

/-! ## Writing -/

theorem Alike.link_iff {a b : Option FileTree} (h : Alike a b) (target : Text) :
    a = some (link target) ↔ b = some (link target) := by
  unfold Alike at h
  split at h
  · simp
  · rw [h]

/-- A node that is no link and has nothing below it is put where there is no link either. -/
theorem sameLinks_insert {leaf : FileTree} {q : List Text} (hleaf : leaf.entries = [])
    (hlink : ∀ target, leaf ≠ link target) (hq : ∀ es, t.node? q ≠ some (directory es))
    (habove : q = [] ∨ ∃ es, t.node? q.dropLast = some (directory es))
    (hfree : q = [] ∨ ∀ target, t.node? q ≠ some (link target)) :
    SameLinks t (t.insert q leaf) := by
  intro at_ name target
  by_cases hx : at_ ++ [name] = q
  · rw [hx, node?_insert]
    have hne : q ≠ [] := hx ▸ List.append_ne_nil_of_right_ne_nil at_ (List.cons_ne_nil name [])
    constructor
    · intro ht
      exact absurd ht (hfree.resolve_left hne target)
    · intro ht
      exact absurd (Option.some.inj ht) (hlink target)
  · exact (alike_insert hleaf hq habove hx).link_iff target

theorem sameLinks_write {content : Bytes} (h : t.write p content = .ok t') : SameLinks t t' := by
  obtain ⟨place, hplace, h⟩ := Sequence.bind_eq_ok.mp h
  split at h
  · cases h
  · rename_i hnode
    cases h
    have hfile : ∀ target, file content ≠ link target := fun target ht => by cases ht
    rcases found_of_locate hplace with ⟨hfound, hreached⟩ | ⟨target, rfl, rfl⟩
    · rw [hfound] at hnode
      exact sameLinks_insert rfl hfile hnode hreached.2 (.inr hreached.1)
    · exact sameLinks_insert rfl hfile hnode (.inl rfl) (.inl rfl)

/-- A directory is made where there is none, in a directory. -/
theorem exists_of_makeDirectory (h : t.makeDirectory p = .ok t') : ∃ name d es,
    p.names.getLast? = some name ∧ t.locate p.parent = .ok ⟨d, some (directory es)⟩ ∧
      name ≠ Path.up ∧ childNamed? name es = none ∧ t' = t.insert (d ++ [name]) (directory []) := by
  unfold makeDirectory at h
  split at h
  · cases h
  · rename_i name hname
    obtain ⟨⟨d, node⟩, habove, h⟩ := Sequence.bind_eq_ok.mp h
    split at h
    · cases h
    · rename_i es hes
      cases hes
      split at h
      · cases h
      · rename_i htaken
        cases h
        rw [Bool.or_eq_true, not_or, decide_eq_true_eq, Option.not_isSome_iff_eq_none] at htaken
        exact ⟨name, d, es, hname, habove, htaken.1, htaken.2, rfl⟩
    · cases h

theorem sameLinks_makeDirectory (h : t.makeDirectory p = .ok t') : SameLinks t t' := by
  obtain ⟨name, d, es, -, habove, -, hfree, rfl⟩ := exists_of_makeDirectory h
  have hdirectory : t.node? d = some (directory es) := by
    rcases found_of_locate habove with ⟨hfound, -⟩ | ⟨target, -, hplace⟩
    · exact hfound.symm
    · cases hplace
  have hnone : t.node? (d ++ [name]) = none := by
    rw [node?_concat, hdirectory]
    exact hfree
  refine sameLinks_insert rfl (fun target ht => by cases ht) ?_ (.inr ⟨es, ?_⟩) (.inr ?_)
  · rw [hnone]
    rintro es' ⟨⟩
  · rw [List.dropLast_concat]
    exact hdirectory
  · rw [hnone]
    rintro target ⟨⟩

/-- A tree in which there is a directory at the path, just made or there before. -/
def Settles (t t' : FileTree) (p : Path) : Prop :=
  t.makeDirectory p = .ok t' ∨ t' = t ∧ t.isDirectory p = true

theorem Settles.sameLinks (h : Settles t t' p) : SameLinks t t' := by
  rcases h with hmake | ⟨rfl, -⟩
  · exact sameLinks_makeDirectory hmake
  · exact .refl t'

/-- Directories are made from the first one on that is missing. -/
theorem settles_of_makeDirectories {absolute : Bool} {names : List Text} {count : Nat}
    (h : t.makeDirectories base absolute names count = .ok t') :
    ∃ above, Settles above t' (base.join ⟨absolute, names.take count⟩) ∧
      (above = t ∨ ∃ fewer, count = fewer + 1 ∧
        t.makeDirectories base absolute names fewer = .ok above) := by
  have hsettle : ∀ {above : FileTree} {cause : SystemCause},
      (if above.isDirectory (base.join ⟨absolute, names.take count⟩) then .ok above
        else .error ⟨cause, Path.toText ⟨absolute, names.take count⟩⟩ :
          Except SystemError FileTree) = .ok t' →
        Settles above t' (base.join ⟨absolute, names.take count⟩) := by
    intro above cause h
    split at h
    · cases h
      exact .inr ⟨rfl, by assumption⟩
    · cases h
  unfold makeDirectories at h
  dsimp only at h
  split at h
  · rename_i hmake
    cases h
    exact ⟨t, .inl hmake, .inl rfl⟩
  · rename_i fewer hmissing
    split at h
    · cases h
    · rename_i above habove
      refine ⟨above, ?_, .inr ⟨fewer, rfl, habove⟩⟩
      split at h
      · rename_i hmake
        cases h
        exact .inl hmake
      · exact hsettle h
  · exact ⟨t, hsettle h, .inl rfl⟩

theorem sameLinks_makeDirectories {absolute : Bool} {names : List Text} {count : Nat}
    (h : t.makeDirectories base absolute names count = .ok t') : SameLinks t t' := by
  induction count generalizing t' with
  | zero =>
      obtain ⟨above, hsettles, rfl | ⟨fewer, hcount, -⟩⟩ := settles_of_makeDirectories h
      · exact hsettles.sameLinks
      · cases hcount
  | succ count ih =>
      obtain ⟨above, hsettles, rfl | ⟨fewer, hcount, habove⟩⟩ := settles_of_makeDirectories h
      · exact hsettles.sameLinks
      · cases hcount
        exact (ih habove).trans hsettles.sameLinks

end FileTree

namespace Store

variable {files : Files} {path : Path} {b : Batch} {tree : FileTree}

/-- A store is written once the directories above it are made. -/
theorem written_eq_ok : written files path b = .ok tree ↔
    ∃ above,
      files.tree.makeDirectories files.base path.parent.absolute path.parent.names
        path.parent.names.length = .ok above ∧
      above.write (files.base.join path) b.dump.encode = .ok tree := by
  have hmap : ∀ {r : Except SystemCause FileTree} {g : SystemCause → SystemError},
      r.mapError g = .ok tree ↔ r = .ok tree := by
    intro r g
    cases r <;> simp [Except.mapError]
  rw [written, Sequence.bind_eq_ok]
  simp only [hmap]

/-- A store that is written leaves all paths as they were. -/
theorem resolve_of_written (h : written files path b = .ok tree) (p : Path) :
    ({ files with tree } : Files).resolve p = files.resolve p := by
  obtain ⟨above, habove, hwrite⟩ := written_eq_ok.mp h
  exact ((FileTree.sameLinks_makeDirectories habove).trans
    (FileTree.sameLinks_write hwrite)).resolve_eq files.base p

end Store

end Marginalia
