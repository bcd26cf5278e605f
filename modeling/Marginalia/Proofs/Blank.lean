import Marginalia.Proofs.Lines
import Marginalia.Text.Blank
import Mathlib.Data.List.DropRight

/-!
Trimming. What is trimmed off a text stands at its ends, and trimming several rows at once trims
the first and the last of them.
-/

namespace Marginalia.Text

/-! ## One text -/

theorem trimStart_suffix (t : Text) : t.trimStart <:+ t := List.dropWhile_suffix isBlank

theorem trimEnd_isPrefix (t : Text) : t.trimEnd <+: t := List.rdropWhile_prefix isBlank t

theorem trim_infix (t : Text) : t.trim <:+: t :=
  (trimEnd_isPrefix t.trimStart).isInfix.trans (trimStart_suffix t).isInfix

theorem allBlank_iff {t : Text} : t.allBlank = true ↔ ∀ c ∈ t, isBlank c = true :=
  List.all_eq_true

theorem trimStart_eq_nil_iff {t : Text} : t.trimStart = [] ↔ t.allBlank = true := by
  rw [allBlank_iff]
  exact List.dropWhile_eq_nil_iff

theorem trimEnd_eq_nil_iff {t : Text} : t.trimEnd = [] ↔ t.allBlank = true := by
  rw [allBlank_iff]
  exact List.rdropWhile_eq_nil_iff

theorem trimStart_append {t : Text} (h : t.allBlank = false) (u : Text) :
    trimStart (t ++ u) = t.trimStart ++ u := by
  have hne : t.dropWhile isBlank ≠ [] := fun he => by
    rw [trimStart_eq_nil_iff.mp he] at h
    cases h
  rw [trimStart, List.dropWhile_append, if_neg (by simpa using hne), trimStart]

theorem trimEnd_append {u : Text} (h : u.allBlank = false) (t : Text) :
    trimEnd (t ++ u) = t ++ u.trimEnd := by
  have hr : Text.allBlank u.reverse = false := by
    rw [allBlank, List.all_reverse]
    exact h
  simp only [trimEnd, Sequence.dropEndWhile, List.reverse_append]
  rw [← trimStart, trimStart_append hr, List.reverse_append, List.reverse_reverse]
  rfl

theorem allBlank_append (t u : Text) : allBlank (t ++ u) = (t.allBlank && u.allBlank) :=
  List.all_append

/-- The white space in front of a text, and the rest. -/
theorem takeWhile_append_trimStart (t : Text) : t.takeWhile isBlank ++ t.trimStart = t :=
  List.takeWhile_append_dropWhile

theorem allBlank_takeWhile (t : Text) : allBlank (t.takeWhile isBlank) = true :=
  allBlank_iff.mpr fun _ hc => List.mem_takeWhile_imp hc

theorem allBlank_trimStart (t : Text) : t.trimStart.allBlank = t.allBlank := by
  conv_rhs => rw [← takeWhile_append_trimStart t]
  rw [allBlank_append, allBlank_takeWhile, Bool.true_and]

theorem allBlank_trimEnd (t : Text) : t.trimEnd.allBlank = t.allBlank := by
  have h := allBlank_trimStart t.reverse
  simpa only [trimStart, trimEnd, Sequence.dropEndWhile, allBlank, List.all_reverse] using h

theorem trim_eq_nil_iff {t : Text} : t.trim = [] ↔ t.allBlank = true := by
  rw [trim, trimEnd_eq_nil_iff, allBlank_trimStart]

theorem trim_ne_nil {t : Text} (h : t.allBlank = false) : t.trim ≠ [] := fun he => by
  rw [trim_eq_nil_iff.mp he] at h
  cases h

theorem trimStart_trimStart (t : Text) : t.trimStart.trimStart = t.trimStart :=
  List.dropWhile_idempotent isBlank t

theorem trimEnd_trimEnd (t : Text) : t.trimEnd.trimEnd = t.trimEnd :=
  List.rdropWhile_idempotent isBlank t

theorem trimStart_of_allBlank_append {t : Text} (h : t.allBlank = true) (u : Text) :
    trimStart (t ++ u) = u.trimStart :=
  List.dropWhile_append_of_pos (allBlank_iff.mp h)

/-- A text that has lost the white space in front keeps its first character behind. -/
theorem trimStart_trimEnd (t : Text) : t.trimEnd.trimStart = t.trimStart.trimEnd := by
  cases h : t.allBlank with
  | true =>
      rw [trimEnd_eq_nil_iff.mpr h, trimStart_eq_nil_iff.mpr h]
      rfl
  | false =>
      have hs : t.trimStart.allBlank = false := by rw [allBlank_trimStart, h]
      have he : t.trimEnd = t.takeWhile isBlank ++ t.trimStart.trimEnd := by
        conv_lhs => rw [← takeWhile_append_trimStart t]
        exact trimEnd_append hs _
      rw [he, trimStart_of_allBlank_append (allBlank_takeWhile t)]
      obtain ⟨rest, hr⟩ := trimEnd_isPrefix t.trimStart
      have hfix := trimStart_trimStart t
      rw [← hr, trimStart_append (by rw [allBlank_trimEnd, hs]), hr] at hfix
      exact List.append_cancel_right (hfix.trans hr.symm)

theorem trim_trimStart (t : Text) : t.trimStart.trim = t.trim := by
  rw [trim, trimStart_trimStart, trim]

theorem trim_trimEnd (t : Text) : t.trimEnd.trim = t.trim := by
  rw [trim, trimStart_trimEnd, trimEnd_trimEnd, trim]

theorem trim_trim (t : Text) : t.trim.trim = t.trim := by
  calc t.trim.trim = t.trimStart.trim := trim_trimEnd t.trimStart
    _ = t.trim := trim_trimStart t

/-! ## Rows -/

theorem unlines_cons {row : Text} {rows : List Text} (h : rows ≠ []) :
    unlines (row :: rows) = row ++ '\n' :: unlines rows := by
  rw [unlines, List.intercalate_cons_of_ne_nil h, List.append_assoc]
  rfl

theorem trimStart_unlines {row : Text} (h : row.allBlank = false) (rows : List Text) :
    (unlines (row :: rows)).trimStart = unlines (Sequence.mapFirst trimStart (row :: rows)) := by
  cases rows with
  | nil => simp [unlines, Sequence.mapFirst]
  | cons next rows =>
      rw [unlines_cons (List.cons_ne_nil next rows), trimStart_append h, Sequence.mapFirst,
        unlines_cons (List.cons_ne_nil next rows)]

theorem allBlank_unlines_concat {last : Text} (h : last.allBlank = false) (rows : List Text) :
    (unlines (rows ++ [last])).allBlank = false := by
  induction rows with
  | nil => simpa [unlines] using h
  | cons row rows ih =>
      rw [List.cons_append, unlines_cons (by simp), allBlank_append]
      have : allBlank ('\n' :: unlines (rows ++ [last])) = false := by
        rw [← List.singleton_append, allBlank_append, ih, Bool.and_false]
      rw [this, Bool.and_false]

theorem trimEnd_unlines {last : Text} (h : last.allBlank = false) (rows : List Text) :
    (unlines (rows ++ [last])).trimEnd =
      unlines (Sequence.mapLast trimEnd (rows ++ [last])) := by
  rw [Sequence.mapLast_concat]
  induction rows with
  | nil => simp [unlines]
  | cons row rows ih =>
      have hb := allBlank_unlines_concat h rows
      rw [List.cons_append, unlines_cons (by simp), List.cons_append, unlines_cons (by simp), ← ih,
        ← List.singleton_append, ← List.append_assoc, trimEnd_append hb, List.append_assoc,
        List.singleton_append]

/-- Rows of which the first and the last are not blank are trimmed at the first and the last. -/
theorem trim_unlines {rows : List Text} (hne : rows ≠ [])
    (h : ∀ row ∈ rows, row.allBlank = false) :
    (unlines rows).trim =
      unlines (Sequence.mapLast trimEnd (Sequence.mapFirst trimStart rows)) := by
  obtain ⟨first, rest, rfl⟩ := List.exists_cons_of_ne_nil hne
  rw [trim, trimStart_unlines (h first List.mem_cons_self)]
  have hfirst : first.trimStart.allBlank = false := by
    rw [allBlank_trimStart]
    exact h first List.mem_cons_self
  rcases List.eq_nil_or_concat rest with rfl | ⟨init, last, hrest⟩
  · exact trimEnd_unlines hfirst []
  · rw [List.concat_eq_append] at hrest
    subst hrest
    have hlast : last.allBlank = false := h last (by simp)
    exact trimEnd_unlines hlast (first.trimStart :: init)

theorem trimmed_within (rows : List Text) :
    RowsWithin (Sequence.mapLast trimEnd (Sequence.mapFirst trimStart rows)) rows :=
  have hstart : RowsWithin _ rows := .mapFirst fun row _ => (trimStart_suffix row).isInfix
  (RowsWithin.mapLast fun row => (trimEnd_isPrefix row).isInfix).trans hstart

end Marginalia.Text
