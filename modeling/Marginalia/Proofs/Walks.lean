import Marginalia.Extraction.Files
import Marginalia.Proofs.Batches
import Marginalia.Proofs.Resolution
import Marginalia.Proofs.Sorting
import Mathlib.Data.Char
import Mathlib.Data.List.Lex

/-!
The files that a walk finds, in the order of their paths. No two of their paths have the same text,
so that the extraction of a tree has one entry for each of them.
-/

namespace Marginalia

/-! ## Paths below a directory -/

namespace Path

/-- The path behind some more names. -/
def under (p : Path) (names : List Text) : Path := { p with names := p.names ++ names }

variable {p : Path} {names names' : List Text}

theorem child_under (p : Path) (name : Text) (names : List Text) :
    (p.child name).under names = p.under (name :: names) := by
  rw [under, under, child, List.append_assoc, List.singleton_append]

theorem before_under {name name' : Text} (h : name < name') (p : Path) (names names' : List Text) :
    before (p.under (name :: names)) (p.under (name' :: names')) = true := by
  have hnames : name :: names < name' :: names' := List.Lex.rel h
  exact decide_eq_true (List.Lex.append_left (· < ·) hnames p.names)

theorem toText_under (h : names ≠ []) (p : Path) :
    (p.under names).toText =
      (if p.absolute then ['/'] else []) ++ ['/'].intercalate (p.names ++ names) := by
  have hempty : (p.names ++ names).isEmpty = false := by
    rw [List.isEmpty_eq_false_iff]
    exact List.append_ne_nil_of_right_ne_nil p.names h
  unfold toText under
  cases p.absolute with
  | true => rfl
  | false => simp only [hempty, Bool.false_eq_true, if_false, List.nil_append]

theorem intercalate_append_inj {front : List Text} (h : names ≠ []) (h' : names' ≠ [])
    (heq : ['/'].intercalate (front ++ names) = ['/'].intercalate (front ++ names')) :
    ['/'].intercalate names = ['/'].intercalate names' := by
  induction front with
  | nil => exact heq
  | cons name front ih =>
      rw [List.cons_append, List.cons_append,
        List.intercalate_cons_of_ne_nil (List.append_ne_nil_of_right_ne_nil front h),
        List.intercalate_cons_of_ne_nil (List.append_ne_nil_of_right_ne_nil front h')] at heq
      exact ih (List.append_cancel_left heq)

/-- Names without slashes can be told from the text of the path. -/
theorem toText_under_inj (h : names ≠ []) (h' : names' ≠ []) (hslash : ∀ name ∈ names, '/' ∉ name)
    (hslash' : ∀ name ∈ names', '/' ∉ name) (heq : (p.under names).toText = (p.under names').toText) :
    names = names' := by
  rw [toText_under h, toText_under h'] at heq
  have hjoined := intercalate_append_inj h h' (List.append_cancel_left heq)
  rw [← List.splitOn_intercalate '/' hslash h, hjoined, List.splitOn_intercalate '/' hslash' h']

end Path

namespace FileTree

/-! ## Names of entries -/

/-- No directory has two entries of one name, and no name holds a slash. -/
def WellNamed (t : FileTree) : Prop :=
  ∀ at_ entries, t.node? at_ = some (directory entries) →
    (entries.map Prod.fst).Nodup ∧ ∀ e ∈ entries, '/' ∉ e.1

theorem childNamed?_of_mem {e : Text × FileTree} {entries : List (Text × FileTree)}
    (hnames : (entries.map Prod.fst).Nodup) (he : e ∈ entries) :
    childNamed? e.1 entries = some e.2 := by
  rw [childNamed?, Sequence.find?_fst_of_mem hnames he, Option.map_some]

theorem mem_of_childNamed? {name : Text} {t : FileTree} {entries : List (Text × FileTree)}
    (h : childNamed? name entries = some t) : (name, t) ∈ entries := by
  obtain ⟨e, he, rfl⟩ := Option.map_eq_some_iff.mp h
  have hname : e.1 = name := by simpa using List.find?_some he
  exact hname ▸ List.mem_of_find?_eq_some he

/-- What stands below a directory stands below one of its entries. -/
theorem exists_mem_of_node?_cons {entries : List (Text × FileTree)} {name : Text}
    {names : List Text} {node : FileTree}
    (h : (directory entries).node? (name :: names) = some node) :
    ∃ t, (name, t) ∈ entries ∧ t.node? names = some node := by
  obtain ⟨t, ht, hnode⟩ := Option.bind_eq_some_iff.mp h
  exact ⟨t, mem_of_childNamed? ht, hnode⟩

theorem node?_cons_of_mem {e : Text × FileTree} {entries : List (Text × FileTree)}
    (hnames : (entries.map Prod.fst).Nodup) (he : e ∈ entries) (names : List Text) :
    (directory entries).node? (e.1 :: names) = e.2.node? names := by
  rw [node?, FileTree.entries, childNamed?_of_mem hnames he, Option.bind_some]

theorem WellNamed.of_node? {t below : FileTree} {at_ : List Text} (h : t.WellNamed)
    (hbelow : t.node? at_ = some below) : below.WellNamed := by
  intro names entries hentries
  apply h (at_ ++ names) entries
  rw [node?_append, hbelow]
  exact hentries

theorem WellNamed.of_mem {e : Text × FileTree} {entries : List (Text × FileTree)}
    (h : (directory entries).WellNamed) (he : e ∈ entries) : e.2.WellNamed := by
  have hnode : (directory entries).node? [e.1] = some e.2 :=
    node?_cons_of_mem (h [] entries rfl).1 he []
  exact h.of_node? hnode

theorem wellNamed_leaf {t : FileTree} (h : ∀ entries, t ≠ directory entries) : t.WellNamed := by
  intro at_ entries hentries
  cases at_ with
  | nil => exact absurd (Option.some.inj hentries) (h entries)
  | cons name names =>
      have hnone : t.entries = [] := by
        cases t with
        | directory entries => exact absurd rfl (h entries)
        | file content => rfl
        | link target => rfl
      rw [node?, hnone] at hentries
      cases hentries

theorem wellNamed_directory {entries : List (Text × FileTree)}
    (hnames : (entries.map Prod.fst).Nodup) (hslash : ∀ e ∈ entries, '/' ∉ e.1)
    (hbelow : ∀ e ∈ entries, e.2.WellNamed) : (directory entries).WellNamed := by
  intro at_ found hfound
  cases at_ with
  | nil =>
      cases hfound
      exact ⟨hnames, hslash⟩
  | cons name names =>
      obtain ⟨t, ht, hfound⟩ := exists_mem_of_node?_cons hfound
      exact hbelow _ ht names found hfound

/-! ## Sightings in order -/

/-- The sources that have been sighted. -/
def sourcesOf (seen : List Sighting) : List Path := seen.filterMap Sighting.source?

/-- The sources lie at or below a path, in the order of their paths. -/
structure InOrderBelow (path : Path) (seen : List Sighting) : Prop where
  below : ∀ p ∈ sourcesOf seen, ∃ names, p = path.under names ∧ ∀ name ∈ names, '/' ∉ name
  ordered : (sourcesOf seen).Pairwise (Path.before · · = true)

theorem inOrderBelow_nil (path : Path) : InOrderBelow path [] := by
  constructor
  · intro p hp
    cases hp
  · exact .nil

theorem inOrderBelow_refused (path : Path) : InOrderBelow path [.refused path] :=
  ⟨(inOrderBelow_nil path).below, (inOrderBelow_nil path).ordered⟩

theorem inOrderBelow_source (path : Path) : InOrderBelow path [.source path] := by
  constructor
  · intro p hp
    refine ⟨[], ?_, fun name hname => nomatch hname⟩
    rw [Path.under, List.append_nil]
    exact List.mem_singleton.mp hp
  · exact List.pairwise_singleton _ path

theorem inOrderBelow_leaf (denied : List Text) (path : Path) {t : FileTree}
    (ht : ∀ entries, t ≠ directory entries) : InOrderBelow path (walkEntry denied path t) := by
  rw [walkEntry]
  · split
    · exact inOrderBelow_refused path
    · split
      · exact inOrderBelow_source path
      · exact inOrderBelow_nil path
  · exact ht

theorem pairwise_nameBefore {found : List (Text × List Sighting)}
    (hnames : (found.map Prod.fst).Nodup) :
    (Sequence.sort (fun a b => nameBefore a.1 b.1) found).Pairwise
      fun a b => nameBefore a.1 b.1 = true := by
  apply Sequence.pairwise_sort
  · intro a b c hab hbc
    exact decide_eq_true (lt_trans (of_decide_eq_true hab) (of_decide_eq_true hbc))
  · refine (List.pairwise_map.mp hnames).imp fun {a b} hne => ?_
    rcases lt_or_gt_of_ne hne with hlt | hgt
    · exact .inl (decide_eq_true hlt)
    · exact .inr (decide_eq_true hgt)

theorem map_fst_walkEntries (denied : List Text) (path : Path) (entries : List (Text × FileTree)) :
    (walkEntries denied path entries).map Prod.fst = entries.map Prod.fst := by
  induction entries with
  | nil => rw [walkEntries]; rfl
  | cons e entries ih => rw [walkEntries, List.map_cons, List.map_cons, ih]

theorem sourcesOf_sightings (denied : List Text) (path : Path) (entries : List (Text × FileTree)) :
    sourcesOf (sightings denied path entries) =
      (Sequence.sort (fun a b => nameBefore a.1 b.1) (walkEntries denied path entries)).flatMap
        fun f => sourcesOf f.2 := List.filterMap_flatMap

section

variable {denied : List Text} {path : Path} {entries : List (Text × FileTree)}
  (h : (directory entries).WellNamed)
  (hfound : ∀ f ∈ walkEntries denied path entries, InOrderBelow (path.child f.1) f.2)

include h hfound

theorem below_walkEntries : ∀ f ∈ walkEntries denied path entries, ∀ p ∈ sourcesOf f.2,
    ∃ names, p = path.under (f.1 :: names) ∧ ∀ name ∈ f.1 :: names, '/' ∉ name := by
  intro f hf p hp
  obtain ⟨names, rfl, hslash⟩ := (hfound f hf).below p hp
  obtain ⟨e, he, hname⟩ : ∃ e ∈ entries, e.1 = f.1 := by
    rw [← List.mem_map, ← map_fst_walkEntries denied path entries]
    exact List.mem_map_of_mem hf
  have hfirst : '/' ∉ f.1 := hname ▸ (h [] entries rfl).2 e he
  exact ⟨names, Path.child_under .., List.forall_mem_cons.mpr ⟨hfirst, hslash⟩⟩

/-- Entry by entry in the order of the names is in order as a whole. -/
theorem inOrderBelow_sightings : InOrderBelow path (sightings denied path entries) := by
  have hbelow := below_walkEntries h hfound
  have hsources := sourcesOf_sightings denied path entries
  constructor
  · intro p hp
    rw [hsources] at hp
    obtain ⟨f, hf, hp⟩ := List.mem_flatMap.mp hp
    obtain ⟨names, rfl, hslash⟩ := hbelow f (Sequence.mem_sort.mp hf) p hp
    exact ⟨_, rfl, hslash⟩
  · have hnames : ((walkEntries denied path entries).map Prod.fst).Nodup := by
      rw [map_fst_walkEntries]
      exact (h [] entries rfl).1
    rw [hsources, List.pairwise_flatMap]
    refine ⟨fun f hf => (hfound f (Sequence.mem_sort.mp hf)).ordered, ?_⟩
    refine (pairwise_nameBefore hnames).imp_of_mem fun {f g} hf hg hlt p hp q hq => ?_
    obtain ⟨names, rfl, -⟩ := hbelow f (Sequence.mem_sort.mp hf) p hp
    obtain ⟨names', rfl, -⟩ := hbelow g (Sequence.mem_sort.mp hg) q hq
    exact Path.before_under (of_decide_eq_true hlt) path names names'

end

mutual

theorem inOrderBelow_walkEntry (denied : List Text) (path : Path) (t : FileTree)
    (h : t.WellNamed) : InOrderBelow path (walkEntry denied path t) := by
  match t with
  | directory entries =>
      rw [walkEntry]
      split
      · exact inOrderBelow_refused path
      · split
        · exact inOrderBelow_nil path
        · exact inOrderBelow_sightings h
            (inOrderBelow_walkEntries denied path entries fun e he => h.of_mem he)
  | file content => exact inOrderBelow_leaf denied path fun entries => nofun
  | link target => exact inOrderBelow_leaf denied path fun entries => nofun

theorem inOrderBelow_walkEntries (denied : List Text) (path : Path)
    (entries : List (Text × FileTree)) (h : ∀ e ∈ entries, e.2.WellNamed) :
    ∀ f ∈ walkEntries denied path entries, InOrderBelow (path.child f.1) f.2 := by
  match entries with
  | [] =>
      intro f hf
      rw [walkEntries] at hf
      cases hf
  | (name, t) :: entries =>
      obtain ⟨ht, hentries⟩ := List.forall_mem_cons.mp h
      rw [walkEntries]
      exact List.forall_mem_cons.mpr ⟨inOrderBelow_walkEntry denied (path.child name) t ht,
        inOrderBelow_walkEntries denied path entries hentries⟩

end

/-! ## The walk -/

section

variable {t : FileTree} {denied : List Text} {base path p : Path}

theorem walk_of_list {entries : List (Text × FileTree)}
    (h : t.list (base.join path) = .ok entries) :
    (t.walk denied base path).2 = sourcesOf (sightings denied path entries) := by
  rw [walk, h]
  rfl

theorem exists_list_of_mem_walk (hp : p ∈ (t.walk denied base path).2) :
    ∃ entries, t.list (base.join path) = .ok entries := by
  unfold walk at hp
  split at hp
  · rename_i entries hlist
    exact ⟨entries, hlist⟩
  · cases hp

/-- A walk that finds anything has sighted it in a directory of the tree. -/
theorem exists_sightings_of_mem_walk (h : t.WellNamed) (hp : p ∈ (t.walk denied base path).2) :
    ∃ entries, (directory entries).WellNamed ∧
      (t.walk denied base path).2 = sourcesOf (sightings denied path entries) := by
  obtain ⟨entries, hlist⟩ := exists_list_of_mem_walk hp
  refine ⟨entries, ?_, walk_of_list hlist⟩
  obtain ⟨place, hplace, hnode⟩ := Sequence.bind_eq_ok.mp hlist
  split at hnode
  · rename_i own hown
    cases hnode
    rcases found_of_locate hplace with ⟨hfound, -⟩ | ⟨target, -, rfl⟩
    · exact h.of_node? (hfound.symm.trans hown)
    · cases hown
  · cases hnode
  · cases hnode

/-- What a walk finds lies below the directory. -/
theorem exists_under_of_mem_walk (h : t.WellNamed) (hp : p ∈ (t.walk denied base path).2) :
    ∃ names, p = path.under names ∧ names ≠ [] ∧ ∀ name ∈ names, '/' ∉ name := by
  obtain ⟨entries, hentries, hwalk⟩ := exists_sightings_of_mem_walk h hp
  have hbelow := below_walkEntries hentries
    (inOrderBelow_walkEntries denied path entries fun e he => hentries.of_mem he)
  rw [hwalk] at hp
  obtain ⟨sighting, hsighting, hsource⟩ := List.mem_filterMap.mp hp
  obtain ⟨f, hf, hmem⟩ := List.mem_flatMap.mp hsighting
  obtain ⟨names, hnames, hslash⟩ := hbelow f (Sequence.mem_sort.mp hf) p
    (List.mem_filterMap.mpr ⟨sighting, hmem, hsource⟩)
  exact ⟨_, hnames, List.cons_ne_nil f.1 names, hslash⟩

/-- What a walk finds it finds in the order of the paths. -/
theorem pairwise_walk (h : t.WellNamed) (denied : List Text) (base path : Path) :
    (t.walk denied base path).2.Pairwise (Path.before · · = true) := by
  cases hfound : (t.walk denied base path).2 with
  | nil => exact .nil
  | cons p ps =>
      have hp : p ∈ (t.walk denied base path).2 := hfound ▸ List.mem_cons_self
      obtain ⟨entries, hentries, hwalk⟩ := exists_sightings_of_mem_walk h hp
      rw [← hfound, hwalk]
      exact (inOrderBelow_sightings hentries
        (inOrderBelow_walkEntries denied path entries fun e he => hentries.of_mem he)).ordered

/-- The paths that a walk finds have different texts. -/
theorem nodup_map_toText_walk (h : t.WellNamed) (denied : List Text) (base path : Path) :
    ((t.walk denied base path).2.map Path.toText).Nodup := by
  refine List.pairwise_map.mpr ((pairwise_walk h denied base path).imp_of_mem ?_)
  intro p q hp hq hlt heq
  obtain ⟨names, rfl, hne, hslash⟩ := exists_under_of_mem_walk h hp
  obtain ⟨names', rfl, hne', hslash'⟩ := exists_under_of_mem_walk h hq
  obtain rfl := Path.toText_under_inj hne hne' hslash hslash' heq
  exact lt_irrefl _ (of_decide_eq_true hlt)

end

end FileTree

/-! ## The extraction of a tree -/

namespace Files

variable {files : Files} {grammar : Grammar} {settings : Settings} {root p : Path}

/-- The sources below a root, in the order of the walk. -/
def sources (files : Files) (root : Path) : List Path :=
  (files.tree.walk [] files.base (files.resolve root)).2

/-- What is extracted from one of the sources; nothing if that fails. -/
def recordsAmong (files : Files) (grammar : Grammar) (settings : Settings) (root p : Path) :
    List Record :=
  ((files.extractFile grammar settings p (some (files.resolve root)) none).2.toOption).getD []

theorem extractAmong_eq (files : Files) (grammar : Grammar) (settings : Settings) (root p : Path) :
    (files.extractAmong grammar settings (files.resolve root) p).2 =
      (p.toText, files.recordsAmong grammar settings root p) := by
  unfold extractAmong recordsAmong
  split
  · rename_i log records h
    rw [h]
    rfl
  · rename_i log f h
    rw [h]
    rfl

/-- The extraction of a tree has the records of each source under its path, in the order of the
walk. -/
theorem files_extractTree (h : files.tree.WellNamed) (grammar : Grammar) (settings : Settings)
    (root : Path) : (files.extractTree grammar settings root).2.files =
      FileRecords.numberFiles 0 ((files.sources root).map fun p =>
        (p.toText, files.recordsAmong grammar settings root p)) := by
  have hentries : ((files.sources root).map
      (files.extractAmong grammar settings (files.resolve root))).map Prod.snd =
        (files.sources root).map fun p =>
          (p.toText, files.recordsAmong grammar settings root p) := by
    rw [List.map_map]
    exact List.map_congr_left fun p _ => extractAmong_eq files grammar settings root p
  have hkeys : (((files.sources root).map fun p =>
      (p.toText, files.recordsAmong grammar settings root p)).map Prod.fst).Nodup := by
    rw [List.map_map]
    exact FileTree.nodup_map_toText_walk h [] files.base (files.resolve root)
  change FileRecords.numberFiles 0 (Batch.ofList (((files.sources root).map
    (files.extractAmong grammar settings (files.resolve root))).map Prod.snd)).files = _
  rw [hentries, Batch.files_ofList hkeys]

theorem paths_extractTree (h : files.tree.WellNamed) (grammar : Grammar) (settings : Settings)
    (root : Path) : (files.extractTree grammar settings root).2.paths =
      (files.sources root).map Path.toText := by
  rw [Batch.paths, files_extractTree h, FileRecords.map_fst_numberFiles, List.map_map]
  rfl

end Files

end Marginalia
