import Marginalia.Sequence
import Mathlib.Data.List.Sort

/-!
Sorted lists and lists without repeated keys: what they hold, in which order, and that both heed the
order and the keys alone.
-/

namespace Marginalia.Sequence

variable {α : Type}

/-! ## Renamed items -/

theorem insertSorted_map {β : Type} {f : α → β} {before : α → α → Bool} {before' : β → β → Bool}
    (hf : ∀ x y, before' (f x) (f y) = before x y) (x : α) (ys : List α) :
    insertSorted before' (f x) (ys.map f) = (insertSorted before x ys).map f := by
  induction ys with
  | nil => rfl
  | cons y ys ih =>
      rw [List.map_cons, insertSorted, insertSorted, hf]
      split
      · rw [ih, List.map_cons]
      · rfl

/-- Sorting heeds only the order. -/
theorem sort_map {β : Type} {f : α → β} {before : α → α → Bool} {before' : β → β → Bool}
    (hf : ∀ x y, before' (f x) (f y) = before x y) (xs : List α) :
    sort before' (xs.map f) = (sort before xs).map f := by
  induction xs with
  | nil => rfl
  | cons x xs ih =>
      change insertSorted before' (f x) (sort before' (xs.map f)) = _
      rw [ih, insertSorted_map hf]
      rfl

/-- Which items stay heeds only which keys are equal. -/
theorem distinctBy_map {β κ κ' : Type} [BEq κ] [BEq κ'] {f : α → β} {key : α → κ} {key' : β → κ'}
    (hf : ∀ x y, (key' (f x) == key' (f y)) = (key x == key y)) (xs : List α) :
    distinctBy key' (xs.map f) = (distinctBy key xs).map f := by
  have hfold : ∀ kept : List α,
      (xs.map f).foldl (fun kept y =>
        if kept.any (key' · == key' y) then kept else y :: kept) (kept.map f) =
      (xs.foldl (fun kept x =>
        if kept.any (key · == key x) then kept else x :: kept) kept).map f := by
    induction xs with
    | nil => exact fun kept => rfl
    | cons x xs ih =>
        intro kept
        have hany : (kept.map f).any (key' · == key' (f x)) = kept.any (key · == key x) := by
          rw [List.any_map]
          exact congrArg (kept.any ·) (funext fun y => hf y x)
        rw [List.map_cons, List.foldl_cons, List.foldl_cons, hany]
        split
        · exact ih kept
        · exact ih (x :: kept)
  rw [distinctBy, distinctBy, List.map_reverse]
  exact congrArg List.reverse (hfold [])

/-! ## What stays -/

theorem mem_insertSorted {before : α → α → Bool} {x y : α} {xs : List α} :
    y ∈ insertSorted before x xs ↔ y = x ∨ y ∈ xs := by
  induction xs with
  | nil => exact List.mem_cons
  | cons z zs ih =>
      rw [insertSorted]
      split
      · rw [List.mem_cons, ih, List.mem_cons, or_left_comm]
      · exact List.mem_cons

theorem mem_sort {before : α → α → Bool} {y : α} {xs : List α} : y ∈ sort before xs ↔ y ∈ xs := by
  induction xs with
  | nil => rfl
  | cons x xs ih =>
      change y ∈ insertSorted before x (sort before xs) ↔ _
      rw [mem_insertSorted, ih, List.mem_cons]

/-- The items that stay are those that come first under their key. -/
theorem mem_distinctBy_iff {κ : Type} [BEq κ] [LawfulBEq κ] {key : α → κ} {y : α} {xs : List α} :
    y ∈ distinctBy key xs ↔ xs.find? (key · == key y) = some y := by
  have hfold : ∀ kept : List α,
      y ∈ xs.foldl (fun kept x => if kept.any (key · == key x) then kept else x :: kept) kept ↔
        y ∈ kept ∨ ((∀ z ∈ kept, key z ≠ key y) ∧ xs.find? (key · == key y) = some y) := by
    induction xs with
    | nil => simp
    | cons x xs ih =>
        intro kept
        rw [List.foldl_cons, ih]
        by_cases hx : key x = key y
        · rw [List.find?_cons_of_pos (by simpa using hx), Option.some_inj]
          cases hany : kept.any (key · == key x) with
          | true =>
              -- The key was there before `x`, so that neither comes first.
              have hnot : ¬ ∀ z ∈ kept, key z ≠ key y := by simpa [hx] using hany
              simp [hnot]
          | false =>
              have hnew : ∀ z ∈ kept, key z ≠ key y := by simpa [hx] using hany
              rw [if_neg Bool.false_ne_true, List.mem_cons]
              constructor
              · rintro ((hy | hy) | ⟨hall, -⟩)
                · exact .inr ⟨hnew, hy.symm⟩
                · exact .inl hy
                · exact absurd hx (hall x List.mem_cons_self)
              · rintro (hy | ⟨-, hy⟩)
                · exact .inl (.inr hy)
                · exact .inl (.inl hy.symm)
        · have hne : y ≠ x := fun h => hx (congrArg key h.symm)
          rw [List.find?_cons_of_neg (by simpa using hx)]
          split
          · rfl
          · simp [hx, hne]
  rw [distinctBy, List.mem_reverse, hfold]
  simp

theorem exists_mem_distinctBy {κ : Type} [BEq κ] [LawfulBEq κ] {key : α → κ} {y : α} {xs : List α}
    (h : y ∈ xs) : ∃ z ∈ distinctBy key xs, key z = key y := by
  obtain ⟨z, hz⟩ : ∃ z, xs.find? (key · == key y) = some z :=
    Option.isSome_iff_exists.mp (List.find?_isSome.mpr ⟨y, h, beq_self_eq_true (key y)⟩)
  have hkey : key z = key y := beq_iff_eq.mp (List.find?_some (p := (key · == key y)) hz)
  exact ⟨z, mem_distinctBy_iff.mpr (hkey ▸ hz), hkey⟩

theorem mem_of_mem_distinctBy {κ : Type} [BEq κ] [LawfulBEq κ] {key : α → κ} {y : α} {xs : List α}
    (h : y ∈ distinctBy key xs) : y ∈ xs :=
  List.mem_of_find?_eq_some (mem_distinctBy_iff.mp h)

/-! ## In which order -/

section

variable {before : α → α → Bool} {x : α} {xs : List α}

theorem pairwise_insertSorted
    (htrans : ∀ a b c, before a b = true → before b c = true → before a c = true)
    (htotal : ∀ y ∈ xs, before x y = true ∨ before y x = true)
    (h : xs.Pairwise (before · · = true)) :
    (insertSorted before x xs).Pairwise (before · · = true) := by
  induction xs with
  | nil => exact List.pairwise_singleton _ x
  | cons y ys ih =>
      obtain ⟨hy, hys⟩ := List.pairwise_cons.mp h
      rw [insertSorted]
      split
      · rename_i hyx
        refine List.pairwise_cons.mpr ⟨fun z hz => ?_, ih (fun z hz => ?_) hys⟩
        · rcases mem_insertSorted.mp hz with rfl | hz
          · exact hyx
          · exact hy z hz
        · exact htotal z (List.mem_cons_of_mem y hz)
      · rename_i hyx
        have hxy : before x y = true := (htotal y List.mem_cons_self).resolve_right hyx
        refine List.pairwise_cons.mpr ⟨fun z hz => ?_, h⟩
        rcases List.mem_cons.mp hz with rfl | hz
        · exact hxy
        · exact htrans x y z hxy (hy z hz)

/-- Items of which always one has to stand before the other are sorted in one way. -/
theorem pairwise_sort
    (htrans : ∀ a b c, before a b = true → before b c = true → before a c = true)
    (htotal : xs.Pairwise fun a b => before a b = true ∨ before b a = true) :
    (sort before xs).Pairwise (before · · = true) := by
  induction xs with
  | nil => exact .nil
  | cons x xs ih =>
      obtain ⟨hx, hxs⟩ := List.pairwise_cons.mp htotal
      exact pairwise_insertSorted htrans (fun y hy => hx y (mem_sort.mp hy)) (ih hxs)

end

theorem pairwise_distinctBy {κ : Type} [BEq κ] [LawfulBEq κ] {key : α → κ} (xs : List α) :
    (distinctBy key xs).Pairwise (key · ≠ key ·) := by
  have hfold : ∀ kept : List α, kept.Pairwise (key · ≠ key ·) →
      (xs.foldl (fun kept x =>
        if kept.any (key · == key x) then kept else x :: kept) kept).Pairwise (key · ≠ key ·) := by
    induction xs with
    | nil => exact fun kept h => h
    | cons x xs ih =>
        intro kept h
        rw [List.foldl_cons]
        split
        · exact ih kept h
        · rename_i hany
          refine ih (x :: kept) (List.pairwise_cons.mpr ⟨fun y hy heq => hany ?_, h⟩)
          exact List.any_eq_true.mpr ⟨y, hy, beq_iff_eq.mpr heq.symm⟩
  rw [distinctBy, List.pairwise_reverse]
  exact (hfold [] .nil).imp fun h => h.symm

/-- What is found under a key that is not repeated. -/
theorem find?_fst_of_mem {κ : Type} [BEq κ] [LawfulBEq κ] {x : κ × α} {xs : List (κ × α)}
    (hkeys : (xs.map Prod.fst).Nodup) (hx : x ∈ xs) : xs.find? (·.1 == x.1) = some x := by
  induction xs with
  | nil => cases hx
  | cons y ys ih =>
      obtain ⟨hnew, hrest⟩ := List.nodup_cons.mp hkeys
      rcases List.mem_cons.mp hx with rfl | hx
      · exact List.find?_cons_of_pos (beq_self_eq_true x.1)
      · have hne : y.1 ≠ x.1 := fun heq => hnew (heq ▸ List.mem_map_of_mem hx)
        rw [List.find?_cons_of_neg (by simpa using hne)]
        exact ih hrest hx

end Marginalia.Sequence
