import Marginalia.Proofs.Walks

/-!
The path that is stored with a record leads back to the file: joined to the root it is the path of
the file again, whether or not the file lies below the root.
-/

namespace Marginalia

theorem Sequence.not_of_mem_splitWhen {α : Type} {p : α → Bool} {xs run : List α} {x : α}
    (h : run ∈ splitWhen p xs) (hx : x ∈ run) : p x = false := by
  induction xs generalizing run with
  | nil =>
      cases List.mem_singleton.mp h
      cases hx
  | cons y ys ih =>
      obtain ⟨first, rest, hys⟩ := List.exists_cons_of_ne_nil (splitWhen_ne_nil p ys)
      rw [hys] at ih
      rw [splitWhen, hys] at h
      split at h
      · rcases List.mem_cons.mp h with rfl | h
        · cases hx
        · exact ih h hx
      · rename_i hy
        rcases List.mem_cons.mp h with rfl | h
        · rcases List.mem_cons.mp hx with rfl | hx
          · exact eq_false_of_ne_true hy
          · exact ih List.mem_cons_self hx
        · exact ih (List.mem_cons_of_mem first h) hx

namespace Path

/-! ## Names -/

/-- The name can stand between two slashes and means something there. -/
def IsName (name : Text) : Prop := name ≠ [] ∧ name ≠ ['.'] ∧ '/' ∉ name

instance : DecidablePred IsName := fun name =>
  inferInstanceAs (Decidable (name ≠ [] ∧ name ≠ ['.'] ∧ '/' ∉ name))

/-- The path is written as it is read: its text tells just its names. -/
def Normal (p : Path) : Prop := ∀ name ∈ p.names, IsName name

variable {p base : Path} {names : List Text}

theorem isName_of_mem_namesOf {t name : Text} (h : name ∈ namesOf t) : IsName name := by
  obtain ⟨hmem, hname⟩ := List.mem_filter.mp h
  rw [Bool.and_eq_true, bne_iff_ne, bne_iff_ne] at hname
  refine ⟨hname.1, hname.2, fun hslash => ?_⟩
  have hfree := Sequence.not_of_mem_splitWhen hmem hslash
  rw [beq_self_eq_true] at hfree
  cases hfree

theorem normal_ofText (t : Text) : (ofText t).Normal := fun _ => isName_of_mem_namesOf

theorem namesOf_slash (t : Text) : namesOf ('/' :: t) = namesOf t := by
  have hsplit : Sequence.split '/' ('/' :: t) = [] :: Sequence.split '/' t :=
    Sequence.splitWhen_append_cons (p := (· == '/')) (beq_self_eq_true '/') [] t
  rw [namesOf, hsplit]
  rfl

theorem namesOf_intercalate (h : ∀ name ∈ names, IsName name) :
    namesOf (['/'].intercalate names) = names := by
  by_cases hne : names = []
  · rw [hne]
    rfl
  · rw [namesOf, Sequence.split_eq_splitOn,
      List.splitOn_intercalate '/' (fun name hname => (h name hname).2.2) hne, List.filter_eq_self]
    intro name hname
    rw [Bool.and_eq_true, bne_iff_ne, bne_iff_ne]
    exact ⟨(h name hname).1, (h name hname).2.1⟩

/-- A text that begins with a name does not begin with a slash. -/
theorem head?_intercalate_ne (h : ∀ name ∈ names, IsName name) :
    (['/'].intercalate names).head? ≠ some '/' := by
  cases names with
  | nil => exact nofun
  | cons name names =>
      obtain ⟨hne, -, hslash⟩ := h name List.mem_cons_self
      obtain ⟨c, rest, rfl⟩ := List.exists_cons_of_ne_nil hne
      have hhead : (['/'].intercalate ((c :: rest) :: names)).head? = some c := by
        cases names <;> rfl
      rw [hhead]
      intro hc
      exact hslash (Option.some.inj hc ▸ List.mem_cons_self)

/-- A normal path is read back from its text. -/
theorem ofText_toText (h : p.Normal) : ofText p.toText = p := by
  obtain ⟨absolute, names⟩ := p
  cases absolute with
  | true =>
      rw [toText, if_pos rfl, ofText, namesOf_slash, namesOf_intercalate h]
      rfl
  | false =>
      rw [toText, if_neg Bool.false_ne_true]
      split
      · rename_i hempty
        cases List.isEmpty_iff.mp hempty
        rfl
      · rw [ofText, namesOf_intercalate h, beq_eq_false_iff_ne.mpr (head?_intercalate_ne h)]

/-! ## Below a directory -/

/-- The path begins with all names of the other, name by name. A path lies below itself. -/
def LiesBelow (p base : Path) : Prop := ∃ names, p = base.under names

theorem join_relative (base : Path) (names : List Text) :
    base.join ⟨false, names⟩ = base.under names := rfl

theorem relativeTo?_under (base : Path) (names : List Text) :
    (base.under names).relativeTo? base = some ⟨false, names⟩ := by
  have hprefix : base.names.isPrefixOf (base.names ++ names) = true :=
    List.isPrefixOf_iff_prefix.mpr (List.prefix_append base.names names)
  simp only [relativeTo?, under, hprefix, decide_true, Bool.and_true, if_true, List.drop_left]

theorem relativeTo?_eq_none (h : ¬ p.LiesBelow base) : p.relativeTo? base = none := by
  rw [relativeTo?, if_neg]
  intro hbelow
  obtain ⟨habsolute, hprefix⟩ := Bool.and_eq_true_iff.mp hbelow
  obtain ⟨names, hnames⟩ := List.isPrefixOf_iff_prefix.mp hprefix
  refine h ⟨names, ?_⟩
  obtain ⟨absolute, own⟩ := p
  rw [under, hnames, ← of_decide_eq_true habsolute]

theorem Normal.of_under (h : (base.under names).Normal) : (⟨false, names⟩ : Path).Normal :=
  fun name hname => h name (List.mem_append_right base.names hname)

end Path

/-! ## Relative paths -/

namespace Files

variable {files : Files} {path root : Path} {names : List Text}

theorem relativePath_under (h : path = (files.resolve root).under names) :
    files.relativePath path (some root) = (Path.mk false names).toText := by
  rw [relativePath, h, Path.relativeTo?_under]
  rfl

theorem relativePath_of_not_liesBelow (h : ¬ path.LiesBelow (files.resolve root)) :
    files.relativePath path (some root) = path.toText := by
  rw [relativePath, Path.relativeTo?_eq_none h]
  rfl

theorem ofText_relativePath_under (hnormal : path.Normal)
    (h : path = (files.resolve root).under names) :
    Path.ofText (files.relativePath path (some root)) = ⟨false, names⟩ := by
  rw [relativePath_under h, Path.ofText_toText (h ▸ hnormal).of_under]

theorem ofText_relativePath_of_not_liesBelow (hnormal : path.Normal)
    (h : ¬ path.LiesBelow (files.resolve root)) :
    Path.ofText (files.relativePath path (some root)) = path := by
  rw [relativePath_of_not_liesBelow h, Path.ofText_toText hnormal]

theorem resolve_join_relativePath (habsolute : path.absolute = true) (hnormal : path.Normal) :
    (files.resolve root).join (Path.ofText (files.relativePath path (some root))) = path := by
  by_cases hbelow : path.LiesBelow (files.resolve root)
  · obtain ⟨names, hnames⟩ := hbelow
    rw [ofText_relativePath_under hnormal hnames, Path.join_relative, hnames]
  · rw [ofText_relativePath_of_not_liesBelow hnormal hbelow, Path.join, if_pos habsolute]

theorem absolute_relativePath_iff (habsolute : path.absolute = true) (hnormal : path.Normal) :
    (Path.ofText (files.relativePath path (some root))).absolute = false ↔
      path.LiesBelow (files.resolve root) := by
  constructor
  · intro hrelative
    by_contra hbelow
    rw [ofText_relativePath_of_not_liesBelow hnormal hbelow, habsolute] at hrelative
    cases hrelative
  · rintro ⟨names, hnames⟩
    rw [ofText_relativePath_under hnormal hnames]

/-- From the root, in its absolute form, the relative path of a file leads back to the file, and it
is relative exactly if the file lies below the root. -/
theorem relativePath_leads_back (files : Files) (root : Path) (habsolute : path.absolute = true)
    (hnormal : path.Normal) :
    (files.resolve root).join (Path.ofText (files.relativePath path (some root))) = path ∧
    ((Path.ofText (files.relativePath path (some root))).absolute = false ↔
      path.LiesBelow (files.resolve root)) :=
  ⟨resolve_join_relativePath habsolute hnormal, absolute_relativePath_iff habsolute hnormal⟩

/-- A workspace and a root that is named from its directory. -/
def wing : Files := ⟨.directory [], ⟨true, ["w"]⟩⟩

def wingRoot : Path := ⟨false, ["a"]⟩

def wingBelow : Path := ⟨true, ["w", "a", "b c", "..py"]⟩

/-- The names of the root and of this directory begin alike. -/
def wingBeside : Path := ⟨true, ["w", "ab", "d.py"]⟩

theorem relativePath_leads_back_wing :
    wingBelow.absolute = true ∧ wingBelow.Normal ∧ wingBeside.absolute = true ∧
    wingBeside.Normal ∧
    wing.relativePath wingBelow (some wingRoot) = "b c/..py" ∧
    (wing.resolve wingRoot).join (Path.ofText "b c/..py") = wingBelow ∧
    wing.relativePath wingBeside (some wingRoot) = "/w/ab/d.py" ∧
    (wing.resolve wingRoot).join (Path.ofText "/w/ab/d.py") = wingBeside ∧
    ¬ wingBeside.LiesBelow (wing.resolve wingRoot) := by
  have hbelow : wingBelow.Normal := by unfold Path.Normal; decide
  have hbeside : wingBeside.Normal := by unfold Path.Normal; decide
  have hinner : wing.relativePath wingBelow (some wingRoot) = "b c/..py" := by decide
  have houter : wing.relativePath wingBeside (some wingRoot) = "/w/ab/d.py" := by decide
  have habsolute : wingBelow.absolute = true ∧ wingBeside.absolute = true := ⟨rfl, rfl⟩
  obtain ⟨hback, -⟩ := relativePath_leads_back wing wingRoot habsolute.1 hbelow
  obtain ⟨hback', hiff⟩ := relativePath_leads_back wing wingRoot habsolute.2 hbeside
  rw [hinner] at hback
  rw [houter] at hback' hiff
  exact ⟨rfl, hbelow, rfl, hbeside, hinner, hback, houter, hback', fun h => nomatch hiff.mpr h⟩

/-! ## Stored records -/

end Files

namespace FileTree

variable {t : FileTree} {at_ names : List Text} {follow : List Text → List Text → List Text}

theorem isName_linkStart {target : Path} (h : ∀ name ∈ at_, Path.IsName name) :
    ∀ name ∈ linkStart at_ target, Path.IsName name := by
  unfold linkStart
  split
  · exact List.forall_mem_nil _
  · exact h

theorem isName_descendLoosely
    (hfollow : ∀ at_ names, (∀ name ∈ at_, Path.IsName name) → (∀ name ∈ names, Path.IsName name) →
      ∀ name ∈ follow at_ names, Path.IsName name)
    (hat : ∀ name ∈ at_, Path.IsName name) (hnames : ∀ name ∈ names, Path.IsName name) :
    ∀ name ∈ descendLoosely t follow at_ names, Path.IsName name := by
  induction names generalizing at_ with
  | nil => exact hat
  | cons name rest ih =>
      obtain ⟨hname, hrest⟩ := List.forall_mem_cons.mp hnames
      rw [descendLoosely]
      split
      · exact ih (fun n hn => hat n (List.dropLast_subset at_ hn)) hrest
      · split
        · rename_i target _
          exact hfollow _ _ (isName_linkStart hat)
            (List.forall_mem_append.mpr ⟨Path.normal_ofText target, hrest⟩)
        · exact ih (List.forall_mem_append.mpr ⟨hat, List.forall_mem_singleton.mpr hname⟩) hrest

theorem isName_foldl_step (hat : ∀ name ∈ at_, Path.IsName name)
    (hnames : ∀ name ∈ names, Path.IsName name) :
    ∀ name ∈ names.foldl Path.step at_, Path.IsName name := by
  induction names generalizing at_ with
  | nil => exact hat
  | cons name rest ih =>
      obtain ⟨hname, hrest⟩ := List.forall_mem_cons.mp hnames
      refine ih ?_ hrest
      unfold Path.step
      split
      · exact fun n hn => hat n (List.dropLast_subset at_ hn)
      · exact List.forall_mem_append.mpr ⟨hat, List.forall_mem_singleton.mpr hname⟩

theorem isName_resolveWithin {links : Nat} (hat : ∀ name ∈ at_, Path.IsName name)
    (hnames : ∀ name ∈ names, Path.IsName name) :
    ∀ name ∈ resolveWithin t links at_ names, Path.IsName name := by
  induction links generalizing at_ names with
  | zero => exact isName_foldl_step hat hnames
  | succ links ih => exact isName_descendLoosely (fun _ _ => ih) hat hnames

end FileTree

namespace Files

variable {files : Files} {p root : Path}

/-- Whatever links lead to, a path is resolved to a normal one. -/
theorem normal_resolve (hbase : files.base.Normal) (hp : p.Normal) : (files.resolve p).Normal := by
  apply FileTree.isName_resolveWithin (List.forall_mem_nil _)
  unfold Path.join
  split
  · exact hp
  · exact List.forall_mem_append.mpr ⟨hbase, hp⟩

theorem path_of_readSource {language : Option Text} {s : Source}
    (h : files.readSource p language = .ok s) : s.path = (files.resolve p).toText := by
  obtain ⟨l, -, h⟩ := Sequence.bind_eq_ok.mp h
  split at h
  · cases h
    rfl
  · cases h
  · cases h

/-- The relative path of every record that is extracted leads back to its file. -/
theorem resolve_join_of_mem_extractFile {grammar : Grammar} {settings : Settings}
    {language : Option Text} {records : List Record} (hbase : files.base.Normal) (hp : p.Normal)
    (h : (files.extractFile grammar settings p (some root) language).2 = .ok records) :
    ∀ r ∈ records, (files.resolve root).join (Path.ofText r.relativePath) = files.resolve p := by
  have hnormal := normal_resolve hbase hp
  unfold extractFile at h
  cases hsource : files.readSource p language with
  | error f =>
      rw [hsource] at h
      cases h
  | ok s =>
      have hpath : s.path = (files.resolve p).toText := path_of_readSource hsource
      rw [hsource] at h
      obtain ⟨raw, -, rfl⟩ := Sequence.map_eq_ok.mp h
      intro r hr
      obtain ⟨own, -, rfl⟩ := List.mem_map.mp hr
      change (files.resolve root).join (Path.ofText
        (files.relativePath (Path.ofText s.path) (some root))) = files.resolve p
      rw [hpath, Path.ofText_toText hnormal]
      exact resolve_join_relativePath rfl hnormal

end Files

end Marginalia
