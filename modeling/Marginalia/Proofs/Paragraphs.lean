import Marginalia.Comment.Paragraph
import Marginalia.Proofs.Blank

/-!
Paragraphs and the rows that they come from: the maximal runs of rows that are no boundary, in
their order.
-/

namespace Marginalia

namespace Sequence

variable {α : Type} {p : α → Bool} {xs : List α}

/-! ## Maximal runs -/

/-- The positions `first` to `last` hold items that do not satisfy `p`, and the run cannot be made
longer. -/
structure IsRun (p : α → Bool) (xs : List α) (first last : Nat) : Prop where
  ordered : first ≤ last
  inside : last < xs.length
  unbroken : ∀ i x, first ≤ i → i ≤ last → xs[i]? = some x → p x = false
  opened : ∀ i x, i + 1 = first → xs[i]? = some x → p x = true
  closed : ∀ x, xs[last + 1]? = some x → p x = true

/-- The places of all maximal runs, from left to right. -/
structure RunPlaces (p : α → Bool) (xs : List α) (places : List (Nat × Nat)) : Prop where
  ascending : places.Pairwise fun u v => u.2 < v.1
  mem_iff : ∀ first last, (first, last) ∈ places ↔ IsRun p xs first last

theorem isRun_whole {first last : Nat} (h : ∀ x ∈ xs, p x = false) :
    IsRun p xs first last ↔ first = 0 ∧ last + 1 = xs.length := by
  constructor
  · intro hr
    have hin := hr.inside
    have hord := hr.ordered
    constructor
    · cases first with
      | zero => rfl
      | succ i =>
          have hi : i < xs.length := by omega
          have ht := hr.opened i xs[i] rfl (List.getElem?_eq_getElem hi)
          rw [h _ (List.getElem_mem hi)] at ht
          cases ht
    · by_cases hl : last + 1 < xs.length
      · have ht := hr.closed xs[last + 1] (List.getElem?_eq_getElem hl)
        rw [h _ (List.getElem_mem hl)] at ht
        cases ht
      · omega
  · rintro ⟨rfl, hl⟩
    refine ⟨Nat.zero_le _, by omega, fun i x _ _ hx => h x (List.mem_of_getElem? hx), ?_, ?_⟩
    · intro i x hi
      cases hi
    · intro x hx
      rw [hl, List.getElem?_eq_none (Nat.le_refl _)] at hx
      cases hx

/-- A separator ends the run in front of it, and the runs behind it are those of the rest. -/
theorem isRun_append_cons {run rest : List α} {sep : α} (hrun : ∀ x ∈ run, p x = false)
    (hsep : p sep = true) {first last : Nat} :
    IsRun p (run ++ sep :: rest) first last ↔
      (first = 0 ∧ last + 1 = run.length) ∨
        ∃ a b, IsRun p rest a b ∧ first = a + (run.length + 1) ∧ last = b + (run.length + 1) := by
  have hat : (run ++ sep :: rest)[run.length]? = some sep := by
    rw [List.getElem?_append_right (Nat.le_refl _), Nat.sub_self]
    rfl
  have hbehind : ∀ i, (run ++ sep :: rest)[i + (run.length + 1)]? = rest[i]? := fun i => by
    rw [List.getElem?_append_right (by omega),
      show i + (run.length + 1) - run.length = i + 1 by omega, List.getElem?_cons_succ]
  have hfront : ∀ i, i < run.length → ∃ x, (run ++ sep :: rest)[i]? = some x ∧ p x = false :=
    fun i hi => ⟨run[i], by rw [List.getElem?_append_left hi, List.getElem?_eq_getElem hi],
      hrun _ (List.getElem_mem hi)⟩
  have hlen : (run ++ sep :: rest).length = rest.length + (run.length + 1) := by
    simp only [List.length_append, List.length_cons]
    omega
  constructor
  · intro hr
    have hord := hr.ordered
    have hin := hr.inside
    have hmiss : last < run.length ∨ run.length < first := by
      by_contra hc
      have hf := hr.unbroken run.length sep (by omega) (by omega) hat
      rw [hsep] at hf
      cases hf
    rcases hmiss with hlt | hgt
    · left
      constructor
      · cases first with
        | zero => rfl
        | succ i =>
            obtain ⟨x, hx, hp⟩ := hfront i (by omega)
            rw [hr.opened i x rfl hx] at hp
            cases hp
      · by_cases hl : last + 1 < run.length
        · obtain ⟨x, hx, hp⟩ := hfront (last + 1) hl
          rw [hr.closed x hx] at hp
          cases hp
        · omega
    · right
      obtain ⟨a, rfl⟩ : ∃ a, first = a + (run.length + 1) := ⟨first - (run.length + 1), by omega⟩
      obtain ⟨b, rfl⟩ : ∃ b, last = b + (run.length + 1) := ⟨last - (run.length + 1), by omega⟩
      refine ⟨a, b, ⟨by omega, by omega, ?_, ?_, ?_⟩, rfl, rfl⟩
      · intro i x hai hib hx
        exact hr.unbroken (i + (run.length + 1)) x (by omega) (by omega) (by rw [hbehind, hx])
      · intro i x hi hx
        exact hr.opened (i + (run.length + 1)) x (by omega) (by rw [hbehind, hx])
      · intro x hx
        exact hr.closed x (by rw [show b + (run.length + 1) + 1 = b + 1 + (run.length + 1) by omega,
          hbehind, hx])
  · rintro (⟨rfl, hl⟩ | ⟨a, b, hr, rfl, rfl⟩)
    · refine ⟨Nat.zero_le _, by omega, ?_, ?_, ?_⟩
      · intro i x _ hi hx
        obtain ⟨y, hy, hp⟩ := hfront i (by omega)
        cases hx.symm.trans hy
        exact hp
      · intro i x hi
        cases hi
      · intro x hx
        rw [hl, hat] at hx
        cases hx
        exact hsep
    · have hord := hr.ordered
      have hin := hr.inside
      refine ⟨by omega, by omega, ?_, ?_, ?_⟩
      · intro i x hai hib hx
        obtain ⟨j, rfl⟩ : ∃ j, i = j + (run.length + 1) := ⟨i - (run.length + 1), by omega⟩
        exact hr.unbroken j x (by omega) (by omega) (by rw [← hbehind, hx])
      · intro i x hi hx
        cases a with
        | zero =>
            obtain rfl : i = run.length := by omega
            cases hat.symm.trans hx
            exact hsep
        | succ a =>
            obtain rfl : i = a + (run.length + 1) := by omega
            exact hr.opened a x rfl (by rw [← hbehind, hx])
      · intro x hx
        exact hr.closed x (by rw [← hx, ← hbehind]; congr 1; omega)

/-- The stretch of a list from one position to another, both included. -/
def between (xs : List α) (place : Nat × Nat) : List α := slice xs place.1 (place.2 + 1)

theorem getElem?_between (xs : List α) {first last : Nat} (j : Nat) :
    (between xs (first, last))[j]? = if first + j ≤ last then xs[first + j]? else none := by
  simp only [between, slice, List.getElem?_drop, List.getElem?_take, Nat.lt_succ_iff]

theorem IsRun.length_between {first last : Nat} (h : IsRun p xs first last) :
    (between xs (first, last)).length = last + 1 - first := by
  have hin := h.inside
  rw [between, slice, List.length_drop, List.length_take_of_le hin]

theorem IsRun.of_mem_between {first last : Nat} (h : IsRun p xs first last) {x : α}
    (hx : x ∈ between xs (first, last)) : p x = false := by
  obtain ⟨j, hj⟩ := List.getElem?_of_mem hx
  rw [getElem?_between] at hj
  split at hj
  · rename_i hle
    exact h.unbroken (first + j) x (Nat.le_add_right first j) hle hj
  · cases hj

theorem between_append_cons (run rest : List α) (sep : α) (place : Nat × Nat) :
    between (run ++ sep :: rest) (place.1 + (run.length + 1), place.2 + (run.length + 1)) =
      between rest place := by
  rw [← List.singleton_append, ← List.append_assoc]
  have hl : (run ++ [sep]).length = run.length + 1 := by simp
  simp only [between, slice]
  rw [show place.2 + (run.length + 1) + 1 = (run ++ [sep]).length + (place.2 + 1) by omega,
    List.take_length_add_append, Nat.add_comm place.1, ← hl, ← List.drop_drop, List.drop_left]

/-- The place of a list that is a run as a whole, if it is not empty. -/
def wholePlace : List α → List (Nat × Nat)
  | [] => []
  | _ :: xs => [(0, xs.length)]

theorem mem_wholePlace {first last : Nat} :
    (first, last) ∈ wholePlace xs ↔ first = 0 ∧ last + 1 = xs.length := by
  cases xs with
  | nil => simp [wholePlace]
  | cons x xs => simp [wholePlace]

theorem runs_append_cons {run rest : List α} {sep : α} (hrun : ∀ x ∈ run, p x = false)
    (hsep : p sep = true) :
    runs p (run ++ sep :: rest) =
      (wholePlace run).map (between (run ++ sep :: rest)) ++ runs p rest := by
  rw [runs, splitWhen_eq_splitOnP,
    List.splitOnP_append_cons_of_forall_mem hrun sep hsep, ← splitWhen_eq_splitOnP,
    List.filter_cons, runs]
  cases run with
  | nil => rfl
  | cons x run => simp [wholePlace, between, slice]

theorem runs_whole (h : ∀ x ∈ xs, p x = false) :
    runs p xs = (wholePlace xs).map (between xs) := by
  rw [runs, splitWhen_eq_splitOnP, List.splitOnP_eq_singleton h]
  cases xs with
  | nil => rfl
  | cons x xs => simp [wholePlace, between, slice]

theorem pairwise_wholePlace (R : Nat × Nat → Nat × Nat → Prop) :
    (wholePlace xs).Pairwise R := by
  cases xs with
  | nil => exact .nil
  | cons x xs => exact List.pairwise_singleton R _

/-- The runs are the stretches at the places of the maximal runs. -/
theorem exists_runPlaces (p : α → Bool) (xs : List α) :
    ∃ places, RunPlaces p xs places ∧ runs p xs = places.map (between xs) := by
  cases hsep : xs.find? p with
  | none =>
      have hall : ∀ x ∈ xs, p x = false := fun x hx =>
        Bool.eq_false_iff.mpr (List.find?_eq_none.mp hsep x hx)
      refine ⟨wholePlace xs, ⟨pairwise_wholePlace _, fun first last => ?_⟩, runs_whole hall⟩
      rw [mem_wholePlace, isRun_whole hall]
  | some sep =>
      obtain ⟨hp, run, rest, hxs, hno⟩ := List.find?_eq_some_iff_append.mp hsep
      have hrun : ∀ x ∈ run, p x = false := fun x hx => by simpa using hno x hx
      have hlt : rest.length < xs.length := by
        rw [hxs]
        simp only [List.length_append, List.length_cons]
        omega
      obtain ⟨places, hplaces, hruns⟩ := exists_runPlaces p rest
      let behind : Nat × Nat → Nat × Nat := fun u =>
        (u.1 + (run.length + 1), u.2 + (run.length + 1))
      refine ⟨wholePlace run ++ places.map behind, ⟨?_, fun first last => ?_⟩, ?_⟩
      · rw [List.pairwise_append]
        refine ⟨pairwise_wholePlace _, List.pairwise_map.mpr ?_, ?_⟩
        · exact hplaces.ascending.imp fun {u v} h => Nat.add_lt_add_right h _
        · rintro ⟨a, b⟩ hu v hv
          obtain ⟨w, -, rfl⟩ := List.mem_map.mp hv
          have hb := (mem_wholePlace.mp hu).2
          change b < w.1 + (run.length + 1)
          omega
      · rw [hxs, isRun_append_cons hrun hp, List.mem_append, mem_wholePlace]
        refine or_congr Iff.rfl ?_
        constructor
        · intro hm
          obtain ⟨⟨a, b⟩, hab, he⟩ := List.mem_map.mp hm
          obtain ⟨ha, hb⟩ := Prod.mk.inj he
          exact ⟨a, b, (hplaces.mem_iff a b).mp hab, ha.symm, hb.symm⟩
        · rintro ⟨a, b, hr, rfl, rfl⟩
          exact List.mem_map.mpr ⟨(a, b), (hplaces.mem_iff a b).mpr hr, rfl⟩
      · rw [hxs, runs_append_cons hrun hp, hruns, List.map_append, List.map_map]
        congr 1
        refine List.map_congr_left fun u _ => ?_
        exact (between_append_cons run rest sep u).symm
termination_by xs.length

end Sequence

namespace Comment

/-! ## Rows of a paragraph -/

variable {language : Option Language} {rows : List Text} {first last : Nat}

/-- The paragraph that the rows at a place make. -/
def paragraphAt (rows : List Text) (place : Nat × Nat) : Text :=
  (Text.unlines (Sequence.between rows place)).trim

theorem exists_paragraphs (language : Option Language) (cleaned : Text) :
    ∃ places, Sequence.RunPlaces (isBoundary language) cleaned.lines places ∧
      paragraphs language cleaned = places.map (paragraphAt cleaned.lines) := by
  obtain ⟨places, hplaces, hruns⟩ := Sequence.exists_runPlaces (isBoundary language) cleaned.lines
  refine ⟨places, hplaces, ?_⟩
  rw [paragraphs, hruns, List.map_map]
  rfl

theorem allBlank_of_isBoundary_eq_false {row : Text} (h : isBoundary language row = false) :
    row.allBlank = false := by
  simp only [isBoundary, Bool.or_eq_false_iff] at h
  exact h.1

theorem map_trim_mapFirst (rows : List Text) :
    (Sequence.mapFirst Text.trimStart rows).map Text.trim = rows.map Text.trim := by
  cases rows with
  | nil => rfl
  | cons row rows => rw [Sequence.mapFirst, List.map_cons, Text.trim_trimStart, List.map_cons]

theorem map_trim_mapLast (rows : List Text) :
    (Sequence.mapLast Text.trimEnd rows).map Text.trim = rows.map Text.trim := by
  fun_induction Sequence.mapLast Text.trimEnd rows with
  | case1 => rfl
  | case2 row => rw [List.map_cons, Text.trim_trimEnd, List.map_cons]
  | case3 row next rows ih => exact congrArg (row.trim :: ·) ih

variable (h : Sequence.IsRun (isBoundary language) rows first last)
  (hrows : ∀ row ∈ rows, '\n' ∉ row)

include h

theorem between_ne_nil : Sequence.between rows (first, last) ≠ [] := by
  have hord := h.ordered
  rw [← List.length_pos_iff, h.length_between]
  omega

include hrows

theorem lines_paragraphAt :
    (paragraphAt rows (first, last)).lines =
      Sequence.mapLast Text.trimEnd
        (Sequence.mapFirst Text.trimStart (Sequence.between rows (first, last))) := by
  have hne := between_ne_nil h
  rw [paragraphAt, Text.trim_unlines hne fun row hr =>
    allBlank_of_isBoundary_eq_false (h.of_mem_between hr), Text.lines_unlines]
  · rw [← List.length_pos_iff, Sequence.length_mapLast, Sequence.length_mapFirst]
    exact List.length_pos_iff.mpr hne
  · exact (Text.trimmed_within _).not_mem fun row hr =>
      hrows row (List.mem_of_mem_take (List.mem_of_mem_drop hr))

/-- The rows of a paragraph are the rows that it comes from, up to white space at their ends. -/
theorem map_trim_lines_paragraphAt :
    (paragraphAt rows (first, last)).lines.map Text.trim =
      (Sequence.between rows (first, last)).map Text.trim := by
  rw [lines_paragraphAt h hrows, map_trim_mapLast, map_trim_mapFirst]

end Comment

end Marginalia
