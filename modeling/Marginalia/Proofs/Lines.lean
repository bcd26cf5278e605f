import Marginalia.Proofs.Sequence
import Marginalia.Text.Lines
import Mathlib.Data.List.TakeWhile

/-!
Rows and columns. A place of a text is a row and a column of characters; what stands between two
places can be cut out of the lines or out of the text, with the same outcome.
-/

namespace Marginalia.Text

/-! ## Lines -/

theorem lines_eq_splitOn (t : Text) : t.lines = t.splitOn '\n' :=
  Sequence.split_eq_splitOn '\n' t

theorem lines_ne_nil (t : Text) : t.lines ≠ [] := Sequence.splitWhen_ne_nil _ t

theorem length_lines (t : Text) : t.lines.length = t.count '\n' + 1 :=
  Sequence.length_splitWhen _ t

theorem unlines_lines (t : Text) : unlines t.lines = t := by
  rw [lines_eq_splitOn]
  exact List.intercalate_splitOn '\n'

theorem lines_unlines {rows : List Text} (hne : rows ≠ []) (h : ∀ row ∈ rows, '\n' ∉ row) :
    (unlines rows).lines = rows := by
  rw [lines_eq_splitOn]
  exact List.splitOn_intercalate '\n' h hne

theorem lines_eq_singleton {t : Text} (h : '\n' ∉ t) : t.lines = [t] := by
  rw [lines_eq_splitOn]
  exact List.splitOn_eq_singleton h

theorem lines_append_newline (t u : Text) : (t ++ '\n' :: u).lines = t.lines ++ u.lines :=
  Sequence.splitWhen_append_cons rfl t u

theorem lines_append_of_not_mem {t : Text} (h : '\n' ∉ t) (u : Text) :
    (t ++ u).lines = Sequence.mapFirst (t ++ ·) u.lines := by
  apply Sequence.splitWhen_append_of_forall
  intro c hc
  rw [beq_eq_false_iff_ne]
  rintro rfl
  exact h hc

theorem lines_cons_of_ne {c : Char} (h : c ≠ '\n') (t : Text) :
    lines (c :: t) = Sequence.mapFirst (c :: ·) t.lines := by
  have hno : '\n' ∉ [c] := fun hc => h (List.mem_singleton.mp hc).symm
  exact lines_append_of_not_mem hno t

theorem not_mem_of_mem_lines {t row : Text} (h : row ∈ t.lines) : '\n' ∉ row := by
  induction t generalizing row with
  | nil =>
      rw [show lines [] = [[]] from rfl, List.mem_singleton] at h
      rw [h]
      exact List.not_mem_nil
  | cons c t ih =>
      by_cases hc : c = '\n'
      · rw [hc, show lines ('\n' :: t) = [] :: lines t from lines_append_newline [] t] at h
        rcases List.mem_cons.mp h with rfl | h
        · exact List.not_mem_nil
        · exact ih h
      · rw [lines_cons_of_ne hc] at h
        obtain ⟨first, rows, ht⟩ := List.exists_cons_of_ne_nil (lines_ne_nil t)
        rw [ht] at h ih
        rcases List.mem_cons.mp h with rfl | h
        · simp only [List.mem_cons, not_or]
          exact ⟨Ne.symm hc, ih List.mem_cons_self⟩
        · exact ih (List.mem_cons_of_mem first h)

/-! ## Places -/

/-- The row and the column of the character at `offset`. -/
def placeAt (t : Text) (offset : Nat) : Nat × Nat := (t.rowAt offset, t.columnAt offset)

/-- The text from one place to another; the rows between them are whole. -/
def cut (rows : List Text) (start stop : Nat × Nat) : Text :=
  unlines (Sequence.mapFirst (·.drop start.2)
    (Sequence.mapLast (·.take stop.2) (Sequence.slice rows start.1 (stop.1 + 1))))

theorem placeAt_append (t u : Text) :
    (t ++ u).placeAt t.length = (t.count '\n', (t.reverse.takeWhile (· != '\n')).length) := by
  simp only [placeAt, rowAt, columnAt, List.take_left]

/-- Every text ends in a row; the rows above it and that row tell the place behind the text. -/
theorem exists_lastRow (t : Text) :
    ∃ above last, t.lines = above ++ [last] ∧ t.reverse.takeWhile (· != '\n') = last.reverse ∧
      ∀ u, (t ++ u).lines = above ++ Sequence.mapFirst (last ++ ·) u.lines ∧
        (t ++ u).placeAt t.length = (above.length, last.length) := by
  by_cases h : '\n' ∈ t
  · obtain ⟨last, rest, hr, hlast⟩ := List.eq_append_cons_of_mem (List.mem_reverse.mpr h)
    have ht : t = rest.reverse ++ '\n' :: last.reverse := by
      rw [← List.reverse_reverse t, hr]
      simp
    have hno : '\n' ∉ last.reverse := by simpa using hlast
    have hcol : t.reverse.takeWhile (· != '\n') = last := by
      have hall : ∀ c ∈ last, (c != '\n') = true := fun c hc =>
        bne_iff_ne.mpr fun he => hlast (he ▸ hc)
      rw [hr, List.takeWhile_append_of_pos hall]
      simp
    have hrow : t.count '\n' = (lines rest.reverse).length := by
      rw [length_lines, ht, List.count_append, List.count_cons_self, List.count_eq_zero.mpr hno]
    refine ⟨lines rest.reverse, last.reverse, ?_, ?_, fun u => ⟨?_, ?_⟩⟩
    · rw [ht, lines_append_newline, lines_eq_singleton hno]
    · rw [hcol, List.reverse_reverse]
    · rw [ht, List.append_assoc, List.cons_append, lines_append_newline,
        lines_append_of_not_mem hno]
    · rw [placeAt_append, hcol, hrow, List.length_reverse]
  · have hcol : t.reverse.takeWhile (· != '\n') = t.reverse :=
      List.takeWhile_eq_self_iff.mpr fun c hc =>
        bne_iff_ne.mpr fun he => h (List.mem_reverse.mp (he ▸ hc))
    refine ⟨[], t, lines_eq_singleton h, hcol, fun u => ⟨?_, ?_⟩⟩
    · rw [lines_append_of_not_mem h, List.nil_append]
    · rw [placeAt_append, hcol, List.count_eq_zero.mpr h, List.length_reverse, List.length_nil]

theorem lines_drop {t : Text} {offset : Nat} (h : offset ≤ t.length) :
    lines (t.drop offset) =
      Sequence.mapFirst (·.drop (t.columnAt offset)) (t.lines.drop (t.rowAt offset)) := by
  obtain ⟨above, last, -, -, hu⟩ := exists_lastRow (t.take offset)
  obtain ⟨hl, hp⟩ := hu (t.drop offset)
  rw [List.take_append_drop] at hl hp
  rw [List.length_take_of_le h] at hp
  obtain ⟨hrow, hcol⟩ := Prod.mk.inj hp
  rw [hrow, hcol, hl, List.drop_left, Sequence.mapFirst_mapFirst]
  obtain ⟨first, rest, hf⟩ := List.exists_cons_of_ne_nil (lines_ne_nil (t.drop offset))
  rw [hf]
  simp only [Sequence.mapFirst, List.drop_left]

theorem lines_take {t : Text} {offset : Nat} (h : offset ≤ t.length) :
    lines (t.take offset) =
      Sequence.mapLast (·.take (t.columnAt offset)) (t.lines.take (t.rowAt offset + 1)) := by
  obtain ⟨above, last, ht, -, hu⟩ := exists_lastRow (t.take offset)
  obtain ⟨hl, hp⟩ := hu (t.drop offset)
  rw [List.take_append_drop] at hl hp
  rw [List.length_take_of_le h] at hp
  obtain ⟨hrow, hcol⟩ := Prod.mk.inj hp
  obtain ⟨first, rest, hf⟩ := List.exists_cons_of_ne_nil (lines_ne_nil (t.drop offset))
  have hrows : t.lines.take (above.length + 1) = above ++ [last ++ first] := by
    rw [hl, hf, Sequence.mapFirst, List.take_length_add_append]
    rfl
  rw [hrow, hcol, hrows, ht, Sequence.mapLast_concat, List.take_left]

/-- In front of a place there is a stretch of its row as long as the column tells. -/
theorem exists_rowBefore {t : Text} {offset : Nat} (h : offset ≤ t.length) :
    ∃ before after, t.lines[t.rowAt offset]? = some (before ++ after) ∧
      before.length = t.columnAt offset ∧
      (t.take offset).reverse.takeWhile (· != '\n') = before.reverse := by
  obtain ⟨above, last, -, hlast, hu⟩ := exists_lastRow (t.take offset)
  obtain ⟨hl, hp⟩ := hu (t.drop offset)
  rw [List.take_append_drop] at hl hp
  rw [List.length_take_of_le h] at hp
  obtain ⟨hrow, hcol⟩ := Prod.mk.inj hp
  obtain ⟨first, rest, hf⟩ := List.exists_cons_of_ne_nil (lines_ne_nil (t.drop offset))
  refine ⟨last, first, ?_, hcol.symm, hlast⟩
  rw [hrow, hl, hf, Sequence.mapFirst, List.getElem?_append_right (Nat.le_refl _), Nat.sub_self]
  rfl

/-- What stands between two places is the stretch of the text between the two offsets. -/
theorem cut_placeAt {t : Text} {start stop : Nat} (h : start ≤ stop) (hs : stop ≤ t.length) :
    cut t.lines (t.placeAt start) (t.placeAt stop) = Sequence.slice t start stop := by
  have hst : start ≤ (t.take stop).length := by
    rw [List.length_take_of_le hs]
    exact h
  have hrow : rowAt (t.take stop) start = t.rowAt start := by
    rw [rowAt, List.take_take, Nat.min_eq_left h, rowAt]
  have hcol : columnAt (t.take stop) start = t.columnAt start := by
    rw [columnAt, List.take_take, Nat.min_eq_left h, columnAt]
  have hlt : t.rowAt start < (t.lines.take (t.rowAt stop + 1)).length := by
    rw [← Sequence.length_mapLast (·.take (t.columnAt stop)), ← lines_take hs, length_lines,
      ← hrow, Nat.lt_succ_iff]
    exact List.Sublist.count_le '\n' (List.take_sublist start (t.take stop))
  calc cut t.lines (t.placeAt start) (t.placeAt stop)
      = unlines (Sequence.mapFirst (·.drop (t.columnAt start))
          ((lines (t.take stop)).drop (t.rowAt start))) := by
        rw [lines_take hs, Sequence.drop_mapLast hlt]
        rfl
    _ = unlines (lines ((t.take stop).drop start)) := by
        rw [lines_drop hst, hrow, hcol]
    _ = Sequence.slice t start stop := unlines_lines _

theorem placeAt_succ {t : Text} {c : Char} (hc : c ≠ '\n') (u : Text) :
    (t ++ c :: u).placeAt (t.length + 1) =
      ((t ++ c :: u).rowAt t.length, (t ++ c :: u).columnAt t.length + 1) := by
  have htake : (t ++ c :: u).take (t.length + 1) = t ++ [c] := by
    rw [List.take_length_add_append]
    rfl
  simp only [placeAt, rowAt, columnAt, htake, List.take_left]
  rw [List.count_append, List.count_singleton, if_neg (by simpa using hc), List.reverse_append,
    List.reverse_singleton, List.singleton_append,
    List.takeWhile_cons_of_pos (by simpa using hc)]
  rfl

theorem rowAt_le_rowAt (t : Text) {a b : Nat} (h : a ≤ b) : t.rowAt a ≤ t.rowAt b :=
  (List.take_prefix_take_left h).sublist.count_le '\n'

theorem rowAt_lt_length_lines (t : Text) (offset : Nat) : t.rowAt offset < t.lines.length := by
  rw [length_lines]
  exact Nat.lt_succ_of_le ((List.take_sublist offset t).count_le '\n')

/-! ## Rows within rows -/

/-- The rows of one text, each a stretch of the row of another text at the same position. -/
abbrev RowsWithin (inner outer : List Text) : Prop := List.Forall₂ (· <:+: ·) inner outer

namespace RowsWithin

variable {rows : List Text} {f : Text → Text}

theorem trans {inner middle outer : List Text} (h₁ : RowsWithin inner middle)
    (h₂ : RowsWithin middle outer) : RowsWithin inner outer :=
  Sequence.forall₂_trans (R := (· <:+: ·)) (fun _ _ _ => List.IsInfix.trans) h₁ h₂

theorem mapFirst (h : ∀ row ∈ rows.head?, f row <:+: row) :
    RowsWithin (Sequence.mapFirst f rows) rows :=
  Sequence.forall₂_mapFirst (fun _ => List.infix_rfl) h

theorem mapLast (h : ∀ row, f row <:+: row) : RowsWithin (Sequence.mapLast f rows) rows :=
  Sequence.forall₂_mapLast (fun _ => List.infix_rfl) h

theorem not_mem {inner outer : List Text} (h : RowsWithin inner outer)
    (ho : ∀ row ∈ outer, '\n' ∉ row) : ∀ row ∈ inner, '\n' ∉ row := by
  induction h with
  | nil => exact fun _ hm => absurd hm List.not_mem_nil
  | cons hr _ ih =>
      intro row hm hn
      rcases List.mem_cons.mp hm with rfl | hm
      · exact ho _ List.mem_cons_self (hr.subset hn)
      · exact ih (fun r hr => ho r (List.mem_cons_of_mem _ hr)) row hm hn

end RowsWithin

end Marginalia.Text
