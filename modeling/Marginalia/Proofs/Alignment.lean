import Marginalia.Proofs.Segmentation
import Mathlib.Data.List.Sort

/-!
Texts that differ only in the indentation of their rows. They have their paragraphs in the same
places, and the same paragraphs exactly if the rows that carry a paragraph on are the same.
-/

namespace Marginalia

namespace Sequence

variable {α : Type} {p : α → Bool} {xs ys : List α} {first last : Nat}

/-! ## Places of runs -/

/-- Where the runs are is told by which items are separators. -/
theorem IsRun.of_map_eq (h : xs.map p = ys.map p) (hrun : IsRun p xs first last) :
    IsRun p ys first last := by
  have hlength : xs.length = ys.length := by simpa using congrArg List.length h
  have hitem {i : Nat} {y : α} (hy : ys[i]? = some y) : ∃ x, xs[i]? = some x ∧ p x = p y := by
    have hi : (xs.map p)[i]? = some (p y) := by rw [h, List.getElem?_map, hy, Option.map_some]
    rw [List.getElem?_map] at hi
    exact Option.map_eq_some_iff.mp hi
  constructor
  · exact hrun.ordered
  · exact hlength ▸ hrun.inside
  · intro i y hfirst hlast hy
    obtain ⟨x, hx, hxy⟩ := hitem hy
    exact hxy ▸ hrun.unbroken i x hfirst hlast hx
  · intro i y hi hy
    obtain ⟨x, hx, hxy⟩ := hitem hy
    exact hxy ▸ hrun.opened i x hi hx
  · intro y hy
    obtain ⟨x, hx, hxy⟩ := hitem hy
    exact hxy ▸ hrun.closed x hx

theorem RunPlaces.of_map_eq {places : List (Nat × Nat)} (h : xs.map p = ys.map p)
    (hplaces : RunPlaces p xs places) : RunPlaces p ys places :=
  ⟨hplaces.ascending, fun first last =>
    (hplaces.mem_iff first last).trans ⟨.of_map_eq h, .of_map_eq h.symm⟩⟩

theorem RunPlaces.unique {places places' : List (Nat × Nat)} (h : RunPlaces p xs places)
    (h' : RunPlaces p xs places') : places = places' := by
  have hmem : ∀ u, u ∈ places ↔ u ∈ places' := fun u =>
    (h.mem_iff u.1 u.2).trans (h'.mem_iff u.1 u.2).symm
  have hnodup {places : List (Nat × Nat)} (h : RunPlaces p xs places) : places.Nodup := by
    refine h.ascending.imp_of_mem fun {u v} hu _ hlt heq => ?_
    have hordered := ((h.mem_iff u.1 u.2).mp hu).ordered
    rw [← heq] at hlt
    omega
  refine ((List.perm_ext_iff_of_nodup (hnodup h) (hnodup h')).mpr hmem).eq_of_pairwise ?_
    h.ascending h'.ascending
  intro u v hu hv huv hvu
  have hu := ((h.mem_iff u.1 u.2).mp hu).ordered
  have hv := ((h'.mem_iff v.1 v.2).mp hv).ordered
  omega

theorem between_tail_eq_iff :
    (between xs (first, last)).tail = (between ys (first, last)).tail ↔
      ∀ i, first < i → i ≤ last → xs[i]? = ys[i]? := by
  constructor
  · intro h i hfirst hlast
    obtain ⟨j, rfl⟩ : ∃ j, i = first + (j + 1) := ⟨i - first - 1, by omega⟩
    have hj := congrArg (·[j]?) h
    simpa only [List.getElem?_tail, getElem?_between, if_pos hlast] using hj
  · intro h
    apply List.ext_getElem?
    intro j
    simp only [List.getElem?_tail, getElem?_between]
    split
    · exact h _ (by omega) (by assumption)
    · rfl

end Sequence

/-! ## Rows of different indentation -/

namespace Text

/-- The rows of two texts are the same from the first character on that is no white space. -/
abbrev Aligned (rows rows' : List Text) : Prop :=
  List.Forall₂ (fun row row' : Text => row.trimStart = row'.trimStart) rows rows'

theorem trim_eq_of_trimStart_eq {row row' : Text} (h : row.trimStart = row'.trimStart) :
    row.trim = row'.trim := congrArg trimEnd h

theorem trimEnd_eq_iff_of_trimStart_eq {row row' : Text} (h : row.trimStart = row'.trimStart)
    (hrow : row.allBlank = false) : row.trimEnd = row'.trimEnd ↔ row = row' := by
  constructor
  · intro hend
    have hblank : row.trimStart.allBlank = false := by rw [allBlank_trimStart, hrow]
    rw [← takeWhile_append_trimStart row, ← takeWhile_append_trimStart row', ← h] at hend ⊢
    rw [trimEnd_append hblank, trimEnd_append hblank] at hend
    rw [List.append_cancel_right hend]
  · exact congrArg trimEnd

theorem mapLast_trimEnd_eq_iff {rows rows' : List Text} (h : Aligned rows rows')
    (hrows : ∀ row ∈ rows, row.allBlank = false) :
    Sequence.mapLast trimEnd rows = Sequence.mapLast trimEnd rows' ↔ rows = rows' := by
  induction h with
  | nil => rfl
  | @cons row row' rows rows' hrow hrest ih =>
      obtain ⟨hblank, hrows⟩ := List.forall_mem_cons.mp hrows
      cases hrest with
      | nil =>
          simp only [Sequence.mapLast, List.cons.injEq, and_true]
          exact trimEnd_eq_iff_of_trimStart_eq hrow hblank
      | cons =>
          rw [Sequence.mapLast, Sequence.mapLast, List.cons.injEq, List.cons.injEq, ih hrows]

/-- In the first of the trimmed rows the indentation does not matter, in the others it does. -/
theorem trimmed_eq_iff {rows rows' : List Text} (h : Aligned rows rows')
    (hrows : ∀ row ∈ rows, row.allBlank = false) :
    Sequence.mapLast trimEnd (Sequence.mapFirst trimStart rows) =
      Sequence.mapLast trimEnd (Sequence.mapFirst trimStart rows') ↔ rows.tail = rows'.tail := by
  cases h with
  | nil => exact Iff.rfl
  | @cons row row' rows rows' hrow hrest =>
      obtain ⟨hfirst, hblank⟩ := List.forall_mem_cons.mp hrows
      have htrimmed : Aligned (row.trimStart :: rows) (row'.trimStart :: rows') :=
        .cons (by rw [hrow]) hrest
      have hshown : ∀ own ∈ row.trimStart :: rows, allBlank own = false :=
        List.forall_mem_cons.mpr ⟨by rw [allBlank_trimStart, hfirst], hblank⟩
      rw [Sequence.mapFirst, Sequence.mapFirst, mapLast_trimEnd_eq_iff htrimmed hshown, hrow,
        List.cons.injEq, List.tail_cons, List.tail_cons]
      exact and_iff_right rfl

end Text

namespace Comment

variable {language : Option Language} {rows rows' : List Text} {first last : Nat}

theorem map_isBoundary_of_aligned (h : Text.Aligned rows rows') :
    rows.map (isBoundary language) = rows'.map (isBoundary language) := by
  rw [← List.forall₂_eq_eq_eq, List.forall₂_map_left_iff, List.forall₂_map_right_iff]
  exact h.imp fun row row' hrow => isBoundary_eq_of_trim_eq (Text.trim_eq_of_trimStart_eq hrow)

theorem paragraphAt_eq_iff (h : Text.Aligned rows rows') (hrows : ∀ row ∈ rows, '\n' ∉ row)
    (hrows' : ∀ row ∈ rows', '\n' ∉ row)
    (hrun : Sequence.IsRun (isBoundary language) rows first last) :
    paragraphAt rows (first, last) = paragraphAt rows' (first, last) ↔
      ∀ i, first < i → i ≤ last → rows[i]? = rows'[i]? := by
  have hrun' := hrun.of_map_eq (map_isBoundary_of_aligned h)
  have hlines : paragraphAt rows (first, last) = paragraphAt rows' (first, last) ↔
      (paragraphAt rows (first, last)).lines = (paragraphAt rows' (first, last)).lines :=
    ⟨congrArg Text.lines, fun heq => by
      rw [← Text.unlines_lines (paragraphAt rows _), heq, Text.unlines_lines]⟩
  have hbetween : Text.Aligned (Sequence.between rows (first, last))
      (Sequence.between rows' (first, last)) := List.forall₂_drop _ (List.forall₂_take _ h)
  rw [hlines, lines_paragraphAt hrun hrows, lines_paragraphAt hrun' hrows',
    Text.trimmed_eq_iff hbetween fun row hrow =>
      allBlank_of_isBoundary_eq_false (hrun.of_mem_between hrow),
    Sequence.between_tail_eq_iff]

/-- Texts whose rows differ in their indentation have the same paragraphs exactly if they have the
same rows in all paragraphs but for the first row of each. -/
theorem paragraphs_eq_iff_of_aligned {cleaned cleaned' : Text}
    (h : Text.Aligned cleaned.lines cleaned'.lines) :
    paragraphs language cleaned = paragraphs language cleaned' ↔
      ∀ first last, Sequence.IsRun (isBoundary language) cleaned.lines first last →
        ∀ i, first < i → i ≤ last → cleaned.lines[i]? = cleaned'.lines[i]? := by
  obtain ⟨places, hplaces, hparagraphs⟩ := exists_paragraphs language cleaned
  obtain ⟨places', hplaces', hparagraphs'⟩ := exists_paragraphs language cleaned'
  obtain rfl := (hplaces.of_map_eq (map_isBoundary_of_aligned h)).unique hplaces'
  rw [hparagraphs, hparagraphs', List.map_inj_left]
  simp only [Prod.forall, hplaces.mem_iff]
  exact forall₂_congr fun first last => forall_congr' fun hrun =>
    paragraphAt_eq_iff h (fun _ => Text.not_mem_of_mem_lines)
      (fun _ => Text.not_mem_of_mem_lines) hrun

end Comment

end Marginalia
