import Marginalia.Proofs.Walks

/-!
What a walk finds, file by file: a file of a supported language is found just where no directory
between the root and the file is left out.
-/

namespace Marginalia

theorem Path.name_child (path : Path) (name : Text) : (path.child name).name = name := by
  simp [Path.name, Path.child]

namespace FileTree

/-- Of the names of a file below some directory, none but the last is left out. -/
def Walked (names : List Text) : Prop := ∀ name ∈ names.dropLast, isSkipped name = false

theorem walked_singleton (name : Text) : Walked [name] := fun _ h => nomatch h

theorem walked_cons_iff {name : Text} {names : List Text} (h : names ≠ []) :
    Walked (name :: names) ↔ isSkipped name = false ∧ Walked names := by
  rw [Walked, List.dropLast_cons_of_ne_nil h, List.forall_mem_cons, Walked]

section

variable {denied : List Text} {path p : Path} {entries : List (Text × FileTree)}

theorem mem_walkEntries_iff {f : Text × List Sighting} : f ∈ walkEntries denied path entries ↔
    ∃ e ∈ entries, f = (e.1, walkEntry denied (path.child e.1) e.2) := by
  induction entries with
  | nil => simp [walkEntries]
  | cons e entries ih => simp [walkEntries, ih]

theorem mem_sourcesOf_sightings_iff : p ∈ sourcesOf (sightings denied path entries) ↔
    ∃ e ∈ entries, p ∈ sourcesOf (walkEntry denied (path.child e.1) e.2) := by
  rw [sourcesOf_sightings, List.mem_flatMap]
  constructor
  · rintro ⟨f, hf, hp⟩
    obtain ⟨e, he, rfl⟩ := mem_walkEntries_iff.mp (Sequence.mem_sort.mp hf)
    exact ⟨e, he, hp⟩
  · rintro ⟨e, he, hp⟩
    exact ⟨_, Sequence.mem_sort.mpr (mem_walkEntries_iff.mpr ⟨e, he, rfl⟩), hp⟩

end

/-! ## What is found -/

theorem walkEntry_leaf {path : Path} {t : FileTree} (ht : ∀ entries, t ≠ directory entries) :
    walkEntry [] path t = if Language.isSupported path then [.source path] else [] := by
  rw [walkEntry]
  · rfl
  · exact ht

theorem walkEntry_directory (path : Path) (entries : List (Text × FileTree)) :
    walkEntry [] path (directory entries) =
      if isSkipped path.name then [] else sightings [] path entries := by
  rw [walkEntry]
  rfl

/-- The path is that of a supported file, so many names below another. None of the names but the
last is left out. -/
structure FoundBelow (path : Path) (names : List Text) (p : Path) : Prop where
  below : p = path.under names
  supported : Language.isSupported p = true
  walked : Walked names

theorem foundBelow_leaf {path p : Path} {t : FileTree} {name : Text}
    (ht : ∀ entries, t ≠ directory entries)
    (hp : p ∈ sourcesOf (walkEntry [] (path.child name) t)) : FoundBelow path [name] p := by
  rw [walkEntry_leaf ht] at hp
  split at hp
  · obtain rfl := List.mem_singleton.mp hp
    exact ⟨rfl, by assumption, walked_singleton name⟩
  · cases hp

mutual

theorem foundBelow_walkEntry (path : Path) (name : Text) (t : FileTree) :
    ∀ p ∈ sourcesOf (walkEntry [] (path.child name) t), ∃ names,
      FoundBelow path (name :: names) p := by
  intro p hp
  match t with
  | directory entries =>
      rw [walkEntry_directory, Path.name_child] at hp
      split at hp
      · cases hp
      · rename_i hopen
        obtain ⟨e, he, hp⟩ := mem_sourcesOf_sightings_iff.mp hp
        obtain ⟨names, rfl, hsupported, hwalked⟩ :=
          foundBelow_walkEntries (path.child name) entries e he p hp
        refine ⟨e.1 :: names, Path.child_under .., hsupported, ?_⟩
        exact (walked_cons_iff (List.cons_ne_nil _ _)).mpr ⟨eq_false_of_ne_true hopen, hwalked⟩
  | file content => exact ⟨[], foundBelow_leaf (t := file content) (fun _ => nofun) hp⟩
  | link target => exact ⟨[], foundBelow_leaf (t := link target) (fun _ => nofun) hp⟩

theorem foundBelow_walkEntries (path : Path) (entries : List (Text × FileTree)) :
    ∀ e ∈ entries, ∀ p ∈ sourcesOf (walkEntry [] (path.child e.1) e.2), ∃ names,
      FoundBelow path (e.1 :: names) p := by
  match entries with
  | [] => exact fun e he => nomatch he
  | (name, t) :: entries =>
      exact List.forall_mem_cons.mpr
        ⟨foundBelow_walkEntry path name t, foundBelow_walkEntries path entries⟩

end

/-- A file is found where the walk comes by. -/
theorem mem_walkEntry_of_node? {path : Path} {name : Text} {names : List Text} {t leaf : FileTree}
    (hnode : t.node? names = some leaf) (hleaf : ∀ entries, leaf ≠ directory entries)
    (hsupported : Language.isSupported (path.under (name :: names)) = true)
    (hwalked : Walked (name :: names)) :
    path.under (name :: names) ∈ sourcesOf (walkEntry [] (path.child name) t) := by
  induction names generalizing path name t with
  | nil =>
      cases hnode
      rw [walkEntry_leaf hleaf, show path.child name = path.under [name] from rfl,
        if_pos hsupported]
      exact List.mem_singleton.mpr rfl
  | cons next names ih =>
      obtain ⟨below, hbelow, hrest⟩ := Option.bind_eq_some_iff.mp hnode
      obtain ⟨entries, rfl⟩ := exists_directory_of_childNamed? hbelow
      obtain ⟨hopen, hwalked⟩ := (walked_cons_iff (List.cons_ne_nil _ _)).mp hwalked
      rw [walkEntry_directory, Path.name_child, hopen, ← Path.child_under]
      rw [← Path.child_under] at hsupported
      exact mem_sourcesOf_sightings_iff.mpr
        ⟨(next, below), mem_of_childNamed? hbelow, ih hrest hsupported hwalked⟩

/-! ## Places without links -/

/-- A path that passes neither a link nor a double dot leads to what stands there. -/
theorem descend_of_node? {t node : FileTree} {at_ names : List Text}
    {follow : List Text → List Text → Except SystemCause Place} (hup : Path.up ∉ names)
    (hnode : t.node? (at_ ++ names) = some node) (hlink : ∀ target, node ≠ link target) :
    descend t follow at_ names = .ok ⟨at_ ++ names, some node⟩ := by
  induction names generalizing at_ with
  | nil =>
      rw [List.append_nil] at hnode
      rw [descend, hnode, List.append_nil]
  | cons name rest ih =>
      have hsplit : at_ ++ name :: rest = (at_ ++ [name]) ++ rest := by simp
      have hnext := hnode
      rw [node?_append] at hnode
      obtain ⟨above, habove, hbelow⟩ := Option.bind_eq_some_iff.mp hnode
      obtain ⟨below, hchild, hrest⟩ := Option.bind_eq_some_iff.mp hbelow
      obtain ⟨es, rfl⟩ := exists_directory_of_childNamed? hchild
      have hstep : t.node? (at_ ++ [name]) = some below := by
        rw [node?_concat, habove]
        exact hchild
      have hname : name ≠ Path.up := fun h => hup (h ▸ List.mem_cons_self)
      rw [descend_cons habove, if_neg hname, hstep]
      rw [hsplit] at hnext ⊢
      have hgoal := ih (fun h => hup (List.mem_cons_of_mem name h)) hnext
      cases below with
      | file content => exact hgoal
      | directory entries => exact hgoal
      | link target =>
          cases rest with
          | nil => exact absurd (Option.some.inj hrest).symm (hlink target)
          | cons next rest => cases hrest

theorem locate_of_node? {t node : FileTree} {p : Path} (hup : Path.up ∉ p.names)
    (hnode : t.node? p.names = some node) (hlink : ∀ target, node ≠ link target) :
    t.locate p = .ok ⟨p.names, some node⟩ :=
  descend_of_node? hup hnode hlink

end FileTree

namespace Files

variable {files : Files} {root p : Path} {content : Bytes}

/-- An existing file is among the sources of a root just where the walk from there comes by. -/
theorem mem_sources_iff (hread : files.tree.read (files.base.join p) = .ok content) :
    files.resolve p ∈ files.sources root ↔
      ∃ names ≠ [], FileTree.FoundBelow (files.resolve root) names (files.resolve p) := by
  have hnode : files.tree.node? (files.resolve p).names = some (.file content) :=
    FileTree.node?_resolve_of_read hread
  constructor
  · intro hp
    obtain ⟨entries, hlist⟩ := FileTree.exists_list_of_mem_walk hp
    rw [sources, FileTree.walk_of_list hlist] at hp
    obtain ⟨e, he, hp⟩ := FileTree.mem_sourcesOf_sightings_iff.mp hp
    obtain ⟨names, hfound⟩ := FileTree.foundBelow_walkEntries _ _ e he _ hp
    exact ⟨_, List.cons_ne_nil _ _, hfound⟩
  · rintro ⟨names, hne, hbelow, hsupported, hwalked⟩
    obtain ⟨name, names, rfl⟩ := List.exists_cons_of_ne_nil hne
    rw [hbelow, Path.under, FileTree.node?_append] at hnode
    obtain ⟨above, habove, hnode⟩ := Option.bind_eq_some_iff.mp hnode
    obtain ⟨below, hchild, hrest⟩ := Option.bind_eq_some_iff.mp hnode
    obtain ⟨entries, rfl⟩ := FileTree.exists_directory_of_childNamed? hchild
    have hlist : files.tree.list (files.base.join (files.resolve root)) = .ok entries := by
      have hplace := FileTree.locate_of_node? (p := files.resolve root)
        (FileTree.up_not_mem_resolve _ _ _) habove fun target ht => by cases ht
      have hjoin : files.base.join (files.resolve root) = files.resolve root := rfl
      rw [hjoin, FileTree.list, hplace]
      rfl
    rw [sources, FileTree.walk_of_list hlist]
    rw [hbelow] at hsupported ⊢
    have hleaf : ∀ entries, FileTree.file content ≠ .directory entries := fun _ h => by cases h
    exact FileTree.mem_sourcesOf_sightings_iff.mpr ⟨(name, below),
      FileTree.mem_of_childNamed? hchild,
      FileTree.mem_walkEntry_of_node? hrest hleaf hsupported hwalked⟩

end Files

end Marginalia
