import Marginalia.Sequence
import Marginalia.Text.Lines
import Mathlib.Data.List.TakeWhile
import Mathlib.Logic.Function.Iterate

/-!
What is left to do for a second normalization. One pass turns all line ends into line feeds for
good, as replacing first the pairs and then the single carriage returns does; of the marks of the
byte order in front it takes one, so a text with several of them loses one with every pass.
-/

namespace Marginalia

namespace Sequence

variable {α : Type} [BEq α]

/-- From left to right every stretch `pat` is replaced by `new`. `covered` items still belong to the
stretch before. -/
def replaceFrom (pat new : List α) : (covered : Nat) → List α → List α
  | _, [] => []
  | covered + 1, _ :: xs => replaceFrom pat new covered xs
  | 0, x :: xs =>
    if pat.isPrefixOf (x :: xs) then new ++ replaceFrom pat new (pat.length - 1) xs
    else x :: replaceFrom pat new 0 xs

def replaceAll (pat new xs : List α) : List α := replaceFrom pat new 0 xs

end Sequence

namespace Text

open Sequence (replaceAll)

/-- The character that may stand in front of a text to tell the order of the bytes. -/
def byteOrderMark : Char := '\uFEFF'

/-! ## Line ends -/

theorem unifyLineEnds_cons {c : Char} (hc : c ≠ '\r') (t : Text) :
    unifyLineEnds (c :: t) = c :: unifyLineEnds t := by
  rw [unifyLineEnds]
  · rw [if_neg hc]
  · rintro rest rfl
    exact absurd rfl hc

theorem unifyLineEnds_pair (t : Text) :
    unifyLineEnds ('\r' :: '\n' :: t) = '\n' :: unifyLineEnds t :=
  rfl

theorem unifyLineEnds_return {t : Text} (h : t.head? ≠ some '\n') :
    unifyLineEnds ('\r' :: t) = '\n' :: unifyLineEnds t := by
  rw [unifyLineEnds]
  · rfl
  · rintro rest - rfl
    exact h rfl

theorem return_not_mem_unifyLineEnds (t : Text) : '\r' ∉ unifyLineEnds t := by
  fun_induction unifyLineEnds t with
  | case1 => exact List.not_mem_nil
  | case2 rest ih => simpa using ih
  | case3 c rest _ ih =>
      split
      · simpa using ih
      · rename_i hc
        simpa [Ne.symm hc] using ih

theorem unifyLineEnds_of_not_mem {t : Text} (h : '\r' ∉ t) : unifyLineEnds t = t := by
  induction t with
  | nil => rfl
  | cons c t ih =>
      simp only [List.mem_cons, not_or] at h
      rw [unifyLineEnds_cons (Ne.symm h.1), ih h.2]

/-- The pairs are replaced first, and then the carriage returns that are left. -/
theorem unifyLineEnds_eq_replaceAll (t : Text) :
    unifyLineEnds t = replaceAll ['\r'] ['\n'] (replaceAll ['\r', '\n'] ['\n'] t) := by
  simp only [replaceAll]
  fun_induction unifyLineEnds t with
  | case1 => rfl
  | case2 rest ih => simp [Sequence.replaceFrom, ih]
  | case3 c rest hpair ih =>
      have hsingle : ['\r', '\n'].isPrefixOf (c :: rest) = false := by
        rw [Bool.eq_false_iff, Ne, List.isPrefixOf_iff_prefix, List.cons_prefix_cons]
        rintro ⟨rfl, back, rfl⟩
        exact hpair back rfl rfl
      rw [Sequence.replaceFrom, hsingle, if_neg Bool.false_ne_true, Sequence.replaceFrom, ih]
      by_cases hc : c = '\r'
      · simp [hc]
      · simp [hc, Ne.symm hc]

/-! ## Marks in front -/

/-- The number of marks of the byte order in front of the text. -/
def markCount (t : Text) : Nat := (t.takeWhile (· == byteOrderMark)).length

theorem markCount_unifyLineEnds (t : Text) : (unifyLineEnds t).markCount = t.markCount := by
  fun_induction unifyLineEnds t with
  | case1 => rfl
  | case2 rest ih => rfl
  | case3 c rest _ ih =>
      simp only [markCount, List.takeWhile_cons] at ih ⊢
      by_cases hc : c = '\r'
      · rw [hc]
        rfl
      · rw [if_neg hc]
        split
        · simpa using ih
        · rfl

theorem markCount_cons_mark (t : Text) : markCount (byteOrderMark :: t) = t.markCount + 1 := by
  simp [markCount]

theorem markCount_of_head?_ne {t : Text} (h : t.head? ≠ some byteOrderMark) : t.markCount = 0 := by
  cases t with
  | nil => rfl
  | cons c t =>
      have hc : c ≠ byteOrderMark := by simpa using h
      simp [markCount, hc]

theorem succ_le_markCount_iff {t : Text} {n : Nat} :
    n + 1 ≤ t.markCount ↔ ∃ u : Text, t = byteOrderMark :: u ∧ n ≤ u.markCount := by
  cases t with
  | nil => simp [markCount]
  | cons c u => by_cases hc : c = byteOrderMark <;> simp [markCount, hc]

theorem drop_unifyLineEnds {t : Text} {n : Nat} (h : n ≤ t.markCount) :
    (unifyLineEnds t).drop n = unifyLineEnds (t.drop n) := by
  induction n generalizing t with
  | zero => rfl
  | succ n ih =>
      obtain ⟨t, rfl, hn⟩ := succ_le_markCount_iff.mp h
      rw [unifyLineEnds_cons (by decide), List.drop_succ_cons, List.drop_succ_cons, ih hn]

theorem markCount_drop {t : Text} {n : Nat} (h : n ≤ t.markCount) :
    markCount (t.drop n) = t.markCount - n := by
  induction n generalizing t with
  | zero => rfl
  | succ n ih =>
      obtain ⟨t, rfl, hn⟩ := succ_le_markCount_iff.mp h
      rw [List.drop_succ_cons, ih hn, markCount_cons_mark, Nat.add_sub_add_right]

theorem normalize_mark (t : Text) : normalize (byteOrderMark :: t) = unifyLineEnds t := rfl

theorem normalize_of_head?_ne {t : Text} (h : t.head? ≠ some byteOrderMark) :
    t.normalize = unifyLineEnds t := by
  rw [normalize]
  rintro rest rfl
  exact h rfl

/-- One pass drops one mark, if there is one. -/
theorem normalize_eq (t : Text) : t.normalize = unifyLineEnds (t.drop (min 1 t.markCount)) := by
  by_cases h : t.head? = some byteOrderMark
  · obtain ⟨t, rfl⟩ := List.head?_eq_some_iff.mp h
    rw [normalize_mark, markCount_cons_mark, Nat.min_eq_left (Nat.le_add_left 1 _)]
    rfl
  · rw [normalize_of_head?_ne h, markCount_of_head?_ne h]
    rfl

/-- Passes one after the other: each of them drops a mark, the first one unifies the line ends. -/
theorem iterate_normalize (t : Text) (n : Nat) :
    normalize^[n + 1] t = unifyLineEnds (t.drop (min (n + 1) t.markCount)) := by
  induction n with
  | zero => exact normalize_eq t
  | succ n ih =>
      have hcount := markCount_drop (Nat.min_le_right (n + 1) t.markCount)
      have hfew : min 1 (t.markCount - min (n + 1) t.markCount) ≤
          markCount (t.drop (min (n + 1) t.markCount)) := by omega
      rw [Function.iterate_succ_apply', ih, normalize_eq, markCount_unifyLineEnds, hcount,
        drop_unifyLineEnds hfew, List.drop_drop,
        unifyLineEnds_of_not_mem (return_not_mem_unifyLineEnds _)]
      congr 2
      omega

theorem two_le_markCount_iff {t : Text} :
    2 ≤ t.markCount ↔ [byteOrderMark, byteOrderMark] <+: t := by
  constructor
  · intro h
    obtain ⟨t, rfl, hnext⟩ := succ_le_markCount_iff.mp h
    obtain ⟨u, rfl, -⟩ := succ_le_markCount_iff.mp hnext
    exact ⟨u, rfl⟩
  · rintro ⟨u, rfl⟩
    exact succ_le_markCount_iff.mpr ⟨_, rfl, succ_le_markCount_iff.mpr ⟨u, rfl, Nat.zero_le _⟩⟩

/-- No carriage return is left, and a second pass changes nothing just if the text does not begin
with two marks of the byte order. Every pass drops one of the marks in front. -/
theorem normalize_normalize_iff (t : Text) :
    '\r' ∉ t.normalize ∧
    (t.normalize.normalize = t.normalize ↔ ¬ [byteOrderMark, byteOrderMark] <+: t) ∧
    ∀ n, normalize^[n + 1] t = replaceAll ['\r'] ['\n']
      (replaceAll ['\r', '\n'] ['\n'] (t.drop (min (n + 1) t.markCount))) := by
  have hone : t.normalize = unifyLineEnds (t.drop (min 1 t.markCount)) := iterate_normalize t 0
  have htwo : t.normalize.normalize = unifyLineEnds (t.drop (min 2 t.markCount)) :=
    iterate_normalize t 1
  refine ⟨hone ▸ return_not_mem_unifyLineEnds _, ?_, fun n => ?_⟩
  · rw [← two_le_markCount_iff, Nat.not_le]
    constructor
    · intro hsame
      by_contra hmany
      obtain ⟨rest, rfl⟩ := two_le_markCount_iff.mp (Nat.not_lt.mp hmany)
      rw [htwo, hone, Nat.min_eq_left (Nat.not_lt.mp hmany), Nat.min_eq_left (by omega)] at hsame
      have hlong : unifyLineEnds rest = byteOrderMark :: unifyLineEnds rest := hsame
      exact List.cons_ne_self _ _ hlong.symm
    · intro hfew
      rw [htwo, hone, Nat.min_eq_right (Nat.le_of_lt hfew), Nat.min_eq_right (by omega)]
  · rw [iterate_normalize, unifyLineEnds_eq_replaceAll]

/-- The second of the marks survives the first pass and not the second. -/
theorem doublyMarked_normalize :
    normalize "\uFEFF\uFEFFa" = ("\uFEFFa" : Text) ∧
    normalize (normalize "\uFEFF\uFEFFa") ≠ normalize "\uFEFF\uFEFFa" := by
  decide

end Text

end Marginalia
