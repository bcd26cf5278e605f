import Marginalia.Sequence
import Mathlib.Data.List.Forall2

/-!
Cuts, searches and changes at the ends of a list, described by positions and by stretches.
-/

namespace Marginalia.Sequence

variable {α : Type}

/-! ## Cuts -/

theorem splitWhen_eq_splitOnP (p : α → Bool) (xs : List α) : splitWhen p xs = xs.splitOnP p := by
  induction xs with
  | nil => rfl
  | cons x xs ih =>
      rw [List.splitOnP_cons_eq_if_modifyHead, splitWhen]
      split
      · rw [ih]
      · rw [ih]
        cases h : xs.splitOnP p with
        | nil => exact absurd h (List.splitOnP_ne_nil p xs)
        | cons s ss => rfl

theorem split_eq_splitOn [BEq α] (sep : α) (xs : List α) : split sep xs = xs.splitOn sep := by
  rw [split, splitWhen_eq_splitOnP, List.splitOn_eq_splitOnP]

theorem splitWhen_append_cons {p : α → Bool} {sep : α} (h : p sep = true) (xs ys : List α) :
    splitWhen p (xs ++ sep :: ys) = splitWhen p xs ++ splitWhen p ys := by
  simp only [splitWhen_eq_splitOnP]
  exact List.splitOnP_append_cons xs ys h

/-- Items that are no separators go to the first stretch. -/
theorem splitWhen_append_of_forall {p : α → Bool} {xs : List α} (h : ∀ x ∈ xs, p x = false)
    (ys : List α) : splitWhen p (xs ++ ys) = mapFirst (xs ++ ·) (splitWhen p ys) := by
  obtain ⟨first, rest, hys⟩ := List.exists_cons_of_ne_nil (splitWhen_ne_nil p ys)
  rw [hys, mapFirst]
  induction xs with
  | nil => exact hys
  | cons x xs ih =>
      obtain ⟨hx, hxs⟩ := List.forall_mem_cons.mp h
      rw [List.cons_append, splitWhen, hx, if_neg Bool.false_ne_true, ih hxs]
      rfl

theorem length_splitWhen (p : α → Bool) (xs : List α) :
    (splitWhen p xs).length = xs.countP p + 1 := by
  induction xs with
  | nil => rfl
  | cons x xs ih =>
      simp only [splitWhen]
      split
      · rename_i h
        rw [List.countP_cons_of_pos h, List.length_cons, ih]
      · rename_i h
        rw [List.countP_cons_of_neg h]
        split
        · rename_i he
          exact absurd he (splitWhen_ne_nil p xs)
        · rename_i s ss he
          rw [← ih, he]
          rfl

/-! ## Searches -/

theorem indexOf?_eq_some [BEq α] [LawfulBEq α] {pat xs : List α} {i : Nat}
    (h : indexOf? pat xs = some i) : i ≤ xs.length ∧ pat <+: xs.drop i := by
  induction xs generalizing i with
  | nil =>
      simp only [indexOf?, List.isEmpty_iff] at h
      split at h
      · rename_i hp
        cases h
        exact ⟨Nat.le_refl 0, hp ▸ List.nil_prefix⟩
      · cases h
  | cons x xs ih =>
      simp only [indexOf?] at h
      split at h
      · rename_i hp
        cases h
        exact ⟨Nat.zero_le _, List.isPrefixOf_iff_prefix.mp hp⟩
      · obtain ⟨j, hj, rfl⟩ := Option.map_eq_some_iff.mp h
        obtain ⟨hle, hpre⟩ := ih hj
        exact ⟨Nat.succ_le_succ hle, hpre⟩

theorem exists_indexOf?_of_infix [BEq α] [LawfulBEq α] {pat xs : List α} (h : pat <:+: xs) :
    ∃ i, indexOf? pat xs = some i := by
  induction xs with
  | nil => exact ⟨0, by simp [indexOf?, List.infix_nil.mp h]⟩
  | cons x xs ih =>
      simp only [indexOf?]
      split
      · exact ⟨0, rfl⟩
      · rename_i hp
        rcases List.infix_cons_iff.mp h with hpre | hin
        · exact absurd (List.isPrefixOf_iff_prefix.mpr hpre) hp
        · obtain ⟨i, hi⟩ := ih hin
          exact ⟨i + 1, by rw [hi]; rfl⟩

/-- `pat` stands at position `i`, and nowhere in front of it. -/
structure StandsFirst (pat xs : List α) (i : Nat) : Prop where
  here : pat <+: xs.drop i
  first : ∀ j < i, ¬ pat <+: xs.drop j

theorem le_of_indexOf? [BEq α] [LawfulBEq α] {pat xs : List α} {i j : Nat}
    (h : indexOf? pat xs = some i) (hj : pat <+: xs.drop j) : i ≤ j := by
  induction xs generalizing i j with
  | nil =>
      simp only [indexOf?] at h
      split at h
      · cases h
        exact Nat.zero_le j
      · cases h
  | cons x xs ih =>
      simp only [indexOf?] at h
      split at h
      · cases h
        exact Nat.zero_le j
      · rename_i hp
        obtain ⟨k, hk, rfl⟩ := Option.map_eq_some_iff.mp h
        cases j with
        | zero => exact absurd (List.isPrefixOf_iff_prefix.mpr hj) hp
        | succ j => exact Nat.succ_le_succ (ih hk hj)

theorem indexOf?_eq_some_iff [BEq α] [LawfulBEq α] {pat xs : List α} {i : Nat} :
    indexOf? pat xs = some i ↔ StandsFirst pat xs i := by
  constructor
  · intro h
    exact ⟨(indexOf?_eq_some h).2, fun j hj hpre => absurd (le_of_indexOf? h hpre) (Nat.not_le.mpr hj)⟩
  · intro h
    obtain ⟨k, hk⟩ := exists_indexOf?_of_infix (h.here.isInfix.trans (List.drop_suffix i xs).isInfix)
    have hle : k ≤ i := le_of_indexOf? hk h.here
    have hge : i ≤ k := Nat.not_lt.mp fun hlt => h.first k hlt (indexOf?_eq_some hk).2
    rw [hk, Nat.le_antisymm hle hge]

theorem occursIn_iff [BEq α] [LawfulBEq α] {pat xs : List α} :
    occursIn pat xs = true ↔ pat <:+: xs := by
  constructor
  · intro h
    obtain ⟨i, hi⟩ := Option.isSome_iff_exists.mp h
    exact (indexOf?_eq_some hi).2.isInfix.trans (List.drop_suffix i xs).isInfix
  · intro h
    obtain ⟨i, hi⟩ := exists_indexOf?_of_infix h
    rw [occursIn, hi]
    rfl

/-- The tail found is the first one. -/
theorem firstTail?_eq_some {p : List α → Bool} {xs : List α} {i : Nat}
    (h : firstTail? p xs = some i) :
    i < xs.length ∧ p (xs.drop i) = true ∧ ∀ j < i, p (xs.drop j) = false := by
  induction xs generalizing i with
  | nil => cases h
  | cons x xs ih =>
      simp only [firstTail?] at h
      split at h
      · rename_i hp
        cases h
        exact ⟨Nat.succ_pos _, hp, fun j hj => absurd hj (Nat.not_lt_zero j)⟩
      · rename_i hp
        obtain ⟨k, hk, rfl⟩ := Option.map_eq_some_iff.mp h
        obtain ⟨hlt, hat, hbefore⟩ := ih hk
        refine ⟨Nat.succ_lt_succ hlt, hat, fun j hj => ?_⟩
        cases j with
        | zero => exact Bool.eq_false_iff.mpr hp
        | succ j => exact hbefore j (Nat.lt_of_succ_lt_succ hj)

theorem exists_firstTail? {p : List α → Bool} {xs : List α} {i : Nat} (hi : i < xs.length)
    (h : p (xs.drop i) = true) : ∃ j ≤ i, firstTail? p xs = some j := by
  induction xs generalizing i with
  | nil => cases hi
  | cons x xs ih =>
      simp only [firstTail?]
      split
      · exact ⟨0, Nat.zero_le i, rfl⟩
      · rename_i hp
        cases i with
        | zero => exact absurd h hp
        | succ i =>
            obtain ⟨j, hj, hs⟩ := ih (Nat.lt_of_succ_lt_succ hi) h
            exact ⟨j + 1, Nat.succ_le_succ hj, by rw [hs]; rfl⟩

/-- A mark at the beginning of a list ends in front of an item that is not in it. -/
theorem prefix_append_cons_iff {mark xs ys : List α} {x : α} (hx : x ∉ mark) :
    mark <+: xs ++ x :: ys ↔ mark <+: xs := by
  induction xs generalizing mark with
  | nil =>
      cases mark with
      | nil => simp
      | cons c mark =>
          have hne : c ≠ x := fun he => hx (he ▸ List.mem_cons_self)
          simp [List.cons_prefix_cons, hne]
  | cons y xs ih =>
      cases mark with
      | nil => simp
      | cons c mark =>
          rw [List.cons_append, List.cons_prefix_cons, List.cons_prefix_cons,
            ih fun hm => hx (List.mem_cons_of_mem c hm)]

/-! ## Changes at the ends -/

theorem mapFirst_mapFirst (f g : α → α) (xs : List α) :
    mapFirst f (mapFirst g xs) = mapFirst (fun x => f (g x)) xs := by
  cases xs <;> rfl

theorem length_mapFirst (f : α → α) (xs : List α) : (mapFirst f xs).length = xs.length := by
  cases xs <;> rfl

theorem length_mapLast (f : α → α) (xs : List α) : (mapLast f xs).length = xs.length := by
  fun_induction mapLast f xs with
  | case1 => rfl
  | case2 => rfl
  | case3 x y xs ih => simp [ih]

theorem mapLast_cons {f : α → α} {x : α} {xs : List α} (h : xs ≠ []) :
    mapLast f (x :: xs) = x :: mapLast f xs := by
  cases xs with
  | nil => exact absurd rfl h
  | cons y ys => rfl

theorem mapLast_concat (f : α → α) (xs : List α) (x : α) :
    mapLast f (xs ++ [x]) = xs ++ [f x] := by
  induction xs with
  | nil => rfl
  | cons y ys ih => rw [List.cons_append, mapLast_cons (by simp), ih, List.cons_append]

theorem drop_mapLast {f : α → α} {xs : List α} {n : Nat} (h : n < xs.length) :
    (mapLast f xs).drop n = mapLast f (xs.drop n) := by
  induction n generalizing xs with
  | zero => rfl
  | succ n ih =>
      cases xs with
      | nil => cases h
      | cons x xs =>
          have hn : n < xs.length := Nat.lt_of_succ_lt_succ h
          rw [mapLast_cons (List.ne_nil_of_length_pos (by omega))]
          exact ih hn

section Rel

variable {R : α → α → Prop} {f : α → α} {xs : List α}

/-- What holds between each item and its image, and between each item and itself, holds all along
the changed list. -/
theorem forall₂_mapFirst (hr : ∀ x, R x x) (hf : ∀ x ∈ xs.head?, R (f x) x) :
    List.Forall₂ R (mapFirst f xs) xs := by
  cases xs with
  | nil => exact .nil
  | cons x xs => exact .cons (hf x rfl) (List.forall₂_same.mpr fun y _ => hr y)

theorem forall₂_mapRest (hr : ∀ x, R x x) (hf : ∀ x, R (f x) x) :
    List.Forall₂ R (mapRest f xs) xs := by
  cases xs with
  | nil => exact .nil
  | cons x xs =>
      exact .cons (hr x) (List.forall₂_map_left_iff.mpr (List.forall₂_same.mpr fun y _ => hf y))

theorem forall₂_mapLast (hr : ∀ x, R x x) (hf : ∀ x, R (f x) x) :
    List.Forall₂ R (mapLast f xs) xs := by
  fun_induction mapLast f xs with
  | case1 => exact .nil
  | case2 x => exact .cons (hf x) .nil
  | case3 x y xs ih => exact .cons (hr x) ih

theorem forall₂_mapLast_mapLast (hf : ∀ x y, R x y → R (f x) (f y)) {ys : List α}
    (h : List.Forall₂ R xs ys) : List.Forall₂ R (mapLast f xs) (mapLast f ys) := by
  induction h with
  | nil => exact .nil
  | cons hxy hrest ih =>
      cases hrest with
      | nil => exact .cons (hf _ _ hxy) .nil
      | cons => exact .cons hxy ih

theorem forall₂_trans (ht : ∀ x y z, R x y → R y z → R x z) {ys zs : List α}
    (hxy : List.Forall₂ R xs ys) (hyz : List.Forall₂ R ys zs) : List.Forall₂ R xs zs := by
  induction hxy generalizing zs with
  | nil => exact hyz
  | cons h _ ih =>
      cases hyz with
      | cons h' hs => exact .cons (ht _ _ _ h h') (ih hs)

end Rel

/-- Related lists have related items at the same positions. -/
theorem getElem?_of_forall₂ {β : Type} {R : α → β → Prop} {xs : List α} {ys : List β}
    (h : List.Forall₂ R xs ys) {i : Nat} {x : α} (hx : xs[i]? = some x) :
    ∃ y, ys[i]? = some y ∧ R x y := by
  induction h generalizing i with
  | nil => cases hx
  | cons hr _ ih =>
      cases i with
      | zero =>
          cases hx
          exact ⟨_, rfl, hr⟩
      | succ i => exact ih hx

/-- Each item of the right list is related to one of the left list. -/
theorem of_mem_right {β : Type} {R : α → β → Prop} {xs : List α} {ys : List β}
    (h : List.Forall₂ R xs ys) {y : β} (hy : y ∈ ys) : ∃ x ∈ xs, R x y := by
  induction h with
  | nil => cases hy
  | cons hr _ ih =>
      rcases List.mem_cons.mp hy with rfl | hy
      · exact ⟨_, List.mem_cons_self, hr⟩
      · obtain ⟨x, hx, hxy⟩ := ih hy
        exact ⟨x, List.mem_cons_of_mem _ hx, hxy⟩

/-- Each item of the left list is related to one of the right list. -/
theorem exists_of_mem_left {β : Type} {R : α → β → Prop} {xs : List α} {ys : List β}
    (h : List.Forall₂ R xs ys) {x : α} (hx : x ∈ xs) : ∃ y ∈ ys, R x y := by
  obtain ⟨i, hi⟩ := List.getElem?_of_mem hx
  obtain ⟨y, hy, hxy⟩ := getElem?_of_forall₂ h hi
  exact ⟨y, List.mem_of_getElem? hy, hxy⟩

theorem forall₂_of_map_eq {β γ : Type} {f : α → γ} {g : β → γ} {xs : List α} {ys : List β}
    (h : xs.map f = ys.map g) :
    List.Forall₂ (fun x y => x ∈ xs ∧ y ∈ ys ∧ f x = g y) xs ys := by
  induction xs generalizing ys with
  | nil =>
      rw [List.map_eq_nil_iff.mp h.symm]
      exact .nil
  | cons x xs ih =>
      obtain ⟨y, ys, rfl, hxy, hrest⟩ := List.map_eq_cons_iff.mp h.symm
      refine .cons ⟨List.mem_cons_self, List.mem_cons_self, hxy.symm⟩ ((ih hrest.symm).imp ?_)
      rintro u v ⟨hu, hv, huv⟩
      exact ⟨List.mem_cons_of_mem x hu, List.mem_cons_of_mem y hv, huv⟩

/-- Lists whose items are related through a third one have a third list between them. -/
theorem exists_forall₂_between {β γ : Type} {P : α → γ → Prop} {Q : γ → β → Prop} {xs : List α}
    {ys : List β} (h : List.Forall₂ (fun x y => ∃ z, P x z ∧ Q z y) xs ys) :
    ∃ zs, List.Forall₂ P xs zs ∧ List.Forall₂ Q zs ys := by
  induction h with
  | nil => exact ⟨[], .nil, .nil⟩
  | cons hz _ ih =>
      obtain ⟨z, hp, hq⟩ := hz
      obtain ⟨zs, hps, hqs⟩ := ih
      exact ⟨z :: zs, .cons hp hps, .cons hq hqs⟩

/-- An order of the items of a list is an order of the items related to them. -/
theorem pairwise_of_forall₂ {β : Type} {R : α → β → Prop} {S : α → α → Prop} {T : β → β → Prop}
    (hT : ∀ x x' y y', R x y → R x' y' → S x x' → T y y') {xs : List α} {ys : List β}
    (h : List.Forall₂ R xs ys) (hS : xs.Pairwise S) : ys.Pairwise T := by
  induction h with
  | nil => exact .nil
  | cons hr hrs ih =>
      rw [List.pairwise_cons] at hS
      refine List.pairwise_cons.mpr ⟨fun y' hy' => ?_, ih hS.2⟩
      obtain ⟨x', hx', hr'⟩ := of_mem_right hrs hy'
      exact hT _ _ _ _ hr hr' (hS.1 x' hx')

/-- The first items of a list, paired with those of another one. -/
theorem forall_mem_iff_of_forall₂ {β : Type} {R : α → β → Prop} {P : α → Prop} {Q : β → Prop}
    {xs : List α} {ys : List β} (h : List.Forall₂ R xs ys)
    (hpq : ∀ x ∈ xs, ∀ y, R x y → (P x ↔ Q y)) : (∀ x ∈ xs, P x) ↔ ∀ y ∈ ys, Q y := by
  induction h with
  | nil => exact iff_of_true (List.forall_mem_nil P) (List.forall_mem_nil Q)
  | cons hr _ ih =>
      rw [List.forall_mem_cons, List.forall_mem_cons, hpq _ List.mem_cons_self _ hr,
        ih fun x hx => hpq x (List.mem_cons_of_mem _ hx)]

theorem exists_pairs_of_forall₂ {β γ : Type} {R : α → β → Prop} {S : α → γ → Prop} {xs : List α}
    {ys : List β} {zs : List γ} (hys : List.Forall₂ R xs ys) (hzs : List.Forall₂ S xs zs) :
    ∃ pairs : List (β × γ), pairs.map Prod.fst = ys ∧ pairs.map Prod.snd = zs ∧
      List.Forall₂ (fun x p => R x p.1 ∧ S x p.2) xs pairs := by
  induction hys generalizing zs with
  | nil =>
      cases hzs
      exact ⟨[], rfl, rfl, .nil⟩
  | @cons x y xs ys hy _ ih =>
      cases hzs with
      | @cons _ z _ zs hz hzs =>
          obtain ⟨pairs, rfl, rfl, h⟩ := ih hzs
          exact ⟨(y, z) :: pairs, rfl, rfl, .cons ⟨hy, hz⟩ h⟩

theorem forall₂_take_iff {β : Type} {R : α → β → Prop} {xs : List α} {ys : List β} :
    List.Forall₂ R xs (ys.take xs.length) ↔
      xs.length ≤ ys.length ∧ ∀ u ∈ xs.zip ys, R u.1 u.2 := by
  induction xs generalizing ys with
  | nil => simp
  | cons x xs ih =>
      cases ys with
      | nil => simp
      | cons y ys =>
          simp only [List.length_cons, List.take_succ_cons, List.forall₂_cons, ih,
            List.zip_cons_cons, List.forall_mem_cons, Nat.add_le_add_iff_right]
          exact and_left_comm

/-! ## Steps that may fail -/

/-- What two steps give, the second one after the first. -/
theorem bind_eq_ok {β γ ε : Type} {e : Except ε β} {f : β → Except ε γ} {z : γ} :
    e >>= f = .ok z ↔ ∃ y, e = .ok y ∧ f y = .ok z := by
  cases e with
  | error e =>
      constructor
      · intro h
        cases h
      · rintro ⟨_, h, -⟩
        cases h
  | ok y =>
      constructor
      · exact fun h => ⟨y, rfl, h⟩
      · rintro ⟨_, h, hz⟩
        cases h
        exact hz

theorem map_eq_ok {β γ ε : Type} {e : Except ε β} {f : β → γ} {z : γ} :
    f <$> e = .ok z ↔ ∃ y, e = .ok y ∧ f y = z := by
  change (e >>= fun y => .ok (f y)) = .ok z ↔ _
  simp only [bind_eq_ok, Except.ok.injEq]

/-- Going through a list succeeds when every step does, with their outcomes in order. -/
theorem mapM_eq_ok {β ε : Type} {f : α → Except ε β} {xs : List α} {ys : List β} :
    xs.mapM f = .ok ys ↔ List.Forall₂ (fun x y => f x = .ok y) xs ys := by
  induction xs generalizing ys with
  | nil =>
      rw [List.mapM_nil, List.forall₂_nil_left_iff]
      constructor
      · intro h
        cases h
        rfl
      · rintro rfl
        rfl
  | cons x xs ih =>
      rw [List.mapM_cons, List.forall₂_cons_left_iff]
      simp only [← ih]
      constructor
      · intro h
        obtain ⟨y, hy, h⟩ := bind_eq_ok.mp h
        obtain ⟨ys', hys, h⟩ := bind_eq_ok.mp h
        cases h
        exact ⟨y, ys', hy, hys, rfl⟩
      · rintro ⟨y, ys', hy, hys, rfl⟩
        exact bind_eq_ok.mpr ⟨y, hy, bind_eq_ok.mpr ⟨ys', hys, rfl⟩⟩

theorem mapM_eq_some {β : Type} {f : α → Option β} {xs : List α} {ys : List β} :
    xs.mapM f = some ys ↔ List.Forall₂ (fun x y => f x = some y) xs ys := by
  induction xs generalizing ys with
  | nil =>
      rw [List.mapM_nil, List.forall₂_nil_left_iff]
      exact Option.some_inj.trans eq_comm
  | cons x xs ih =>
      rw [List.mapM_cons, List.forall₂_cons_left_iff]
      simp only [← ih]
      constructor
      · intro h
        obtain ⟨y, hy, h⟩ := Option.bind_eq_some_iff.mp h
        obtain ⟨ys', hys, h⟩ := Option.bind_eq_some_iff.mp h
        cases h
        exact ⟨y, ys', hy, hys, rfl⟩
      · rintro ⟨y, ys', hy, hys, rfl⟩
        exact Option.bind_eq_some_iff.mpr ⟨y, hy, Option.bind_eq_some_iff.mpr ⟨ys', hys, rfl⟩⟩

theorem exists_forall₂ {β : Type} {R : α → β → Prop} {xs : List α} (h : ∀ x ∈ xs, ∃ y, R x y) :
    ∃ ys, List.Forall₂ R xs ys := by
  induction xs with
  | nil => exact ⟨[], .nil⟩
  | cons x xs ih =>
      obtain ⟨y, hy⟩ := h x List.mem_cons_self
      obtain ⟨ys, hys⟩ := ih fun x hx => h x (List.mem_cons_of_mem _ hx)
      exact ⟨y :: ys, .cons hy hys⟩

/-- Going through a list gives what is wanted when every step gives its part of it. -/
theorem exists_mapM_some_iff {β γ : Type} {f : α → Option β} {g : β → γ} {h : α → γ}
    {xs : List α} :
    (∃ ys, xs.mapM f = some ys ∧ ys.map g = xs.map h) ↔
      ∀ x ∈ xs, ∃ y, f x = some y ∧ g y = h x := by
  simp only [mapM_eq_some]
  constructor
  · rintro ⟨ys, hf, he⟩
    induction hf with
    | nil => exact fun x hx => absurd hx List.not_mem_nil
    | cons hx _ ih =>
        obtain ⟨hhead, htail⟩ := List.cons.inj he
        exact List.forall_mem_cons.mpr ⟨⟨_, hx, hhead⟩, ih htail⟩
  · intro hall
    obtain ⟨ys, hys⟩ := exists_forall₂ hall
    refine ⟨ys, hys.imp fun _ _ hy => hy.1, ?_⟩
    induction hys with
    | nil => rfl
    | cons hy _ ih =>
        rw [List.map_cons, List.map_cons, hy.2, ih (List.forall_mem_cons.mp hall).2]

theorem exists_mapM_ok_iff {β ε : Type} {f : α → Except ε β} {xs : List α} :
    (∃ ys, xs.mapM f = .ok ys) ↔ ∀ x ∈ xs, ∃ y, f x = .ok y := by
  simp only [mapM_eq_ok]
  constructor
  · rintro ⟨ys, h⟩ x hx
    obtain ⟨y, -, hy⟩ := exists_of_mem_left h hx
    exact ⟨y, hy⟩
  · exact exists_forall₂

/-- Two passes through a list succeed, with outcomes that differ by `h`, when all their steps do. -/
theorem exists_mapM_map_iff {β ε : Type} {f g : α → Except ε β} {h : β → β} {xs : List α} :
    (∃ ys, xs.mapM f = .ok ys ∧ xs.mapM g = .ok (ys.map h)) ↔
      ∀ x ∈ xs, ∃ y, f x = .ok y ∧ g x = .ok (h y) := by
  simp only [mapM_eq_ok, List.forall₂_map_right_iff]
  constructor
  · rintro ⟨ys, hf, hg⟩
    induction hf with
    | nil => exact fun x hx => absurd hx List.not_mem_nil
    | cons hx _ ih =>
        cases hg with
        | cons hx' hg => exact List.forall_mem_cons.mpr ⟨⟨_, hx, hx'⟩, ih hg⟩
  · intro hall
    obtain ⟨ys, hys⟩ := exists_forall₂ hall
    exact ⟨ys, hys.imp fun _ _ hy => hy.1, hys.imp fun _ _ hy => hy.2⟩

/-- The same for passes that gather groups, where each step gives groups of one length. -/
theorem exists_flatten_mapM_iff {β ε : Type} {f g : α → Except ε (List β)} {h : β → β}
    {xs : List α}
    (hlen : ∀ x ∈ xs, ∀ ys zs, f x = .ok ys → g x = .ok zs → ys.length = zs.length) :
    (∃ ys, List.flatten <$> xs.mapM f = .ok ys ∧
      List.flatten <$> xs.mapM g = .ok (ys.map h)) ↔
      ∀ x ∈ xs, ∃ ys, f x = .ok ys ∧ g x = .ok (ys.map h) := by
  rw [← exists_mapM_map_iff]
  simp only [map_eq_ok]
  constructor
  · rintro ⟨-, ⟨groups, hf, rfl⟩, groups', hg, hflat⟩
    refine ⟨groups, hf, ?_⟩
    rw [hg]
    congr 1
    rw [List.eq_iff_flatten_eq, hflat, List.map_flatten]
    refine ⟨rfl, ?_⟩
    rw [mapM_eq_ok] at hf hg
    clear hflat
    induction hf generalizing groups' with
    | nil =>
        cases hg
        rfl
    | cons hx _ ih =>
        cases hg with
        | cons hx' hg =>
            rw [List.map_cons, List.map_cons, List.map_cons,
              ih (fun x hx => hlen x (List.mem_cons_of_mem _ hx)) _ hg, List.length_map,
              hlen _ List.mem_cons_self _ _ hx hx']
  · rintro ⟨groups, hf, hg⟩
    exact ⟨_, ⟨groups, hf, rfl⟩, _, hg, (List.map_flatten ..).symm⟩

end Marginalia.Sequence
