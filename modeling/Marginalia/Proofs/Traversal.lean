import Marginalia.Proofs.Sources

/-!
The walk through a directory tree without links: it finds the files of a supported suffix that no
hidden or skipped directory holds, all of them, each one once, in the order of the paths.
-/

namespace Marginalia

theorem Path.under_inj {p : Path} {names names' : List Text} :
    p.under names = p.under names' ↔ names = names' := by
  simp [Path.under]

theorem Language.isSupported_iff {p : Path} : Language.isSupported p = true ↔
    p.suffix.lower ∈ Language.all.map Language.suffix := by
  rw [Language.isSupported, Language.ofSuffix?, List.find?_isSome, List.mem_map]
  simp only [beq_iff_eq]

namespace FileTree

theorem isSkipped_eq_false_iff {name : Text} :
    isSkipped name = false ↔ name.head? ≠ some '.' ∧ name ∉ skippedNames := by
  simp [isSkipped]

/-! ## Trees without links -/

/-- No name below the tree is that of a link, nor is the tree one. -/
def WithoutLinks (t : FileTree) : Prop := ∀ names target, t.node? names ≠ some (link target)

theorem withoutLinks_file (content : Bytes) : (file content).WithoutLinks := by
  intro names target h
  cases names with
  | nil => cases h
  | cons name names => cases h

theorem withoutLinks_directory {entries : List (Text × FileTree)}
    (h : ∀ e ∈ entries, e.2.WithoutLinks) : (directory entries).WithoutLinks := by
  intro names target hlink
  cases names with
  | nil => cases hlink
  | cons name names =>
      obtain ⟨t, ht, hlink⟩ := exists_mem_of_node?_cons hlink
      exact h _ ht names target hlink

theorem WithoutLinks.exists_file {t leaf : FileTree} {names : List Text} (h : t.WithoutLinks)
    (hnode : t.node? names = some leaf) (hleaf : ∀ entries, leaf ≠ directory entries) :
    ∃ content, leaf = file content := by
  cases leaf with
  | file content => exact ⟨content, rfl⟩
  | link target => exact absurd hnode (h names target)
  | directory entries => exact absurd rfl (hleaf entries)

/-! ## What the walk comes by -/

section

variable {path p : Path} {entries : List (Text × FileTree)}

/-- What is found at an entry stands there under the names that its path has more. -/
theorem exists_leaf_of_mem_walkEntry {path : Path} {name : Text} {names : List Text} {t : FileTree}
    (ht : t.WellNamed) (h : path.under (name :: names) ∈ sourcesOf (walkEntry [] (path.child name) t)) :
    ∃ leaf, t.node? names = some leaf ∧ ∀ entries, leaf ≠ directory entries := by
  induction names generalizing path name t with
  | nil =>
      cases t with
      | file content => exact ⟨_, rfl, fun _ he => by cases he⟩
      | link target => exact ⟨_, rfl, fun _ he => by cases he⟩
      | directory entries =>
          -- Whatever is found below a directory has a longer path.
          rw [walkEntry_directory] at h
          split at h
          · cases h
          · obtain ⟨e, he, hp⟩ := mem_sourcesOf_sightings_iff.mp h
            obtain ⟨below, hbelow, -, -⟩ := foundBelow_walkEntries (path.child name) entries e he _ hp
            rw [Path.child_under, Path.under_inj] at hbelow
            cases hbelow
  | cons next names ih =>
      by_cases hleaf : ∃ entries, t = directory entries
      · obtain ⟨entries, rfl⟩ := hleaf
        rw [walkEntry_directory] at h
        split at h
        · cases h
        · obtain ⟨e, he, hp⟩ := mem_sourcesOf_sightings_iff.mp h
          obtain ⟨below, hbelow, -, -⟩ := foundBelow_walkEntries (path.child name) entries e he _ hp
          rw [Path.child_under, Path.under_inj] at hbelow
          obtain ⟨rfl, -⟩ := List.cons.inj (List.cons.inj hbelow).2
          rw [← Path.child_under] at hp
          obtain ⟨leaf, hnode, hleaf⟩ := ih (ht.of_mem he) hp
          exact ⟨leaf, (node?_cons_of_mem (ht [] entries rfl).1 he names).trans hnode, hleaf⟩
      · rw [walkEntry_leaf fun entries he => hleaf ⟨entries, he⟩] at h
        split at h
        · have hshort := List.mem_singleton.mp h
          rw [show path.child name = path.under [name] from rfl, Path.under_inj] at hshort
          cases hshort
        · cases h

theorem mem_sightings_iff (hnamed : (directory entries).WellNamed)
    (hlinks : (directory entries).WithoutLinks) :
    p ∈ sourcesOf (sightings [] path entries) ↔
      ∃ names content, (directory entries).node? names = some (file content) ∧
        FoundBelow path names p := by
  rw [mem_sourcesOf_sightings_iff]
  constructor
  · rintro ⟨e, he, hp⟩
    obtain ⟨names, hfound⟩ := foundBelow_walkEntries path entries e he p hp
    obtain ⟨leaf, hnode, hleaf⟩ :=
      exists_leaf_of_mem_walkEntry (hnamed.of_mem he) (hfound.below ▸ hp)
    have hbelow := (node?_cons_of_mem (hnamed [] entries rfl).1 he names).trans hnode
    obtain ⟨content, rfl⟩ := hlinks.exists_file hbelow hleaf
    exact ⟨_, content, hbelow, hfound⟩
  · rintro ⟨names, content, hnode, rfl, hsupported, hwalked⟩
    cases names with
    | nil => cases hnode
    | cons name names =>
        obtain ⟨t, ht, hbelow⟩ := exists_mem_of_node?_cons hnode
        refine ⟨(name, t), ht, mem_walkEntry_of_node? hbelow ?_ hsupported hwalked⟩
        exact fun _ he => by cases he

end

/-! ## The walk as a whole -/

/-- A walk from a directory without links below it finds the files of which the suffix, in lower
case, is that of a language and no directory above, up to the one where the walk begins, is hidden
or skipped. Name by name, the path of each of them is greater than those found before it, so that
none comes twice. -/
theorem walk_exact {t : FileTree} {base path : Path} {entries : List (Text × FileTree)}
    (hlist : t.list (base.join path) = .ok entries) (hnamed : (directory entries).WellNamed)
    (hlinks : (directory entries).WithoutLinks) :
    let found := (t.walk [] base path).2
    (∀ p, p ∈ found ↔ ∃ names content, p = path.under names ∧
      (directory entries).node? names = some (file content) ∧
      p.suffix.lower ∈ Language.all.map Language.suffix ∧
      ∀ name ∈ names.dropLast, name.head? ≠ some '.' ∧ name ∉ skippedNames) ∧
    found.Nodup ∧ found.Pairwise fun p q => p.names < q.names := by
  intro found
  have hfound : found = sourcesOf (sightings [] path entries) := walk_of_list hlist
  have hordered : found.Pairwise fun p q => p.names < q.names := by
    rw [hfound]
    exact (inOrderBelow_sightings hnamed
      (inOrderBelow_walkEntries [] path entries fun e he => hnamed.of_mem he)).ordered.imp
        of_decide_eq_true
  refine ⟨fun p => ?_, hordered.imp fun {p q} hlt heq => ?_, hordered⟩
  · rw [hfound, mem_sightings_iff hnamed hlinks]
    constructor
    · rintro ⟨names, content, hnode, hbelow, hsupported, hwalked⟩
      exact ⟨names, content, hbelow, hnode, Language.isSupported_iff.mp hsupported,
        fun name hname => isSkipped_eq_false_iff.mp (hwalked name hname)⟩
    · rintro ⟨names, content, hbelow, hnode, hsupported, hwalked⟩
      exact ⟨names, content, hnode, hbelow, Language.isSupported_iff.mpr hsupported,
        fun name hname => isSkipped_eq_false_iff.mpr (hwalked name hname)⟩
  · subst heq
    exact lt_irrefl _ hlt

/-- Directories of every kind: hidden, skipped, named like a source, and plain. -/
def groveEntries : List (Text × FileTree) :=
  [("src", .directory [("Deep.JAVA", .file []), ("notes.txt", .file [])]),
    (".git", .directory [("hook.py", .file [])]), ("build", .directory [("b.st", .file [])]),
    ("lib.py", .directory [("z.st", .file [])]), (".x.py", .file [])]

theorem wellNamed_grove : (directory groveEntries).WellNamed := by
  have hfile : (file []).WellNamed := wellNamed_leaf fun _ => nofun
  have hone (name : Text) (h : '/' ∉ name) : (directory [(name, .file [])]).WellNamed :=
    wellNamed_directory (by simp) (by simpa using h) (by simpa using hfile)
  apply wellNamed_directory (by decide) (by decide)
  simp only [groveEntries, List.forall_mem_cons]
  refine ⟨wellNamed_directory (by decide) (by decide) (by simpa using hfile), hone _ (by decide),
    hone _ (by decide), hone _ (by decide), hfile, List.forall_mem_nil _⟩

theorem withoutLinks_grove : (directory groveEntries).WithoutLinks := by
  have hfile := withoutLinks_file []
  apply withoutLinks_directory
  simp only [groveEntries, List.forall_mem_cons]
  refine ⟨?_, ?_, ?_, ?_, hfile, List.forall_mem_nil _⟩ <;>
    exact withoutLinks_directory (by simpa using hfile)

theorem walk_exact_grove :
    ((directory groveEntries).list (Path.root.join .root) = .ok groveEntries ∧
      (directory groveEntries).WellNamed ∧ (directory groveEntries).WithoutLinks) ∧
    ⟨true, ["src", "Deep.JAVA"]⟩ ∈ ((directory groveEntries).walk [] .root .root).2 ∧
    ⟨true, [".git", "hook.py"]⟩ ∉ ((directory groveEntries).walk [] .root .root).2 := by
  have hlist : (directory groveEntries).list (Path.root.join .root) = .ok groveEntries := rfl
  obtain ⟨hmem, -, -⟩ := walk_exact hlist wellNamed_grove withoutLinks_grove
  refine ⟨⟨hlist, wellNamed_grove, withoutLinks_grove⟩, ?_, fun hfound => ?_⟩
  · exact (hmem _).mpr ⟨["src", "Deep.JAVA"], [], rfl, rfl, by decide +kernel, by decide⟩
  · obtain ⟨names, -, hnames, -, -, hopen⟩ := (hmem _).mp hfound
    cases hnames
    exact (hopen ".git" (by decide)).1 rfl

end FileTree

end Marginalia
