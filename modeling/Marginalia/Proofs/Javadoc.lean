import Marginalia.Proofs.Indentation

/-!
Javadoc comments. Rows that are written as one come back when it is cleaned: what a row begins or
ends in, be it white space, stars or slashes, is never taken for a part of the markers around it.
-/

namespace Marginalia.Comment

/-- The row behind a star of its own, below the white space. -/
def starred (w row : Text) : Text := w ++ " * " ++ row

/-- The rows between those of the opening and the closing marker. -/
def javadocRows (w : Text) (rows : List Text) : List Text :=
  "/**" :: (rows.map (starred w) ++ [w ++ " */"])

/-- The rows as a javadoc comment. -/
def javadoc (w : Text) (rows : List Text) : Text := Text.unlines (javadocRows w rows)

/-- The text as a javadoc comment in one row. -/
def javadocRow (t : Text) : Text := "/** " ++ t ++ " */"

variable {w row t : Text} {rows : List Text}

/-! ## The markers -/

theorem of?_java_of_open (t : Text) : MarkerStyle.of? .java ("/**" ++ t) = some .block := rfl

theorem dropBlockOpen_javadoc (t : Text) : dropBlockOpen ("/** " ++ t) = t := rfl

/-- The blank behind the star is the only one that goes with it. -/
theorem dropBlockStar_starred (hw : w.allBlank = true) (row : Text) :
    dropBlockStar (starred w row) = row := by
  have hstart : (starred w row).trimStart = '*' :: ' ' :: row := by
    rw [starred, List.append_assoc, Text.trimStart_of_allBlank_append hw]
    rfl
  rw [dropBlockStar_of_star hstart (by simp)]
  rfl

/-- Only the star next to the slash closes the comment: a blank parts it from the stars in front. -/
theorem dropBlockClose_append (t : Text) : dropBlockClose (t ++ " */") = t.trimEnd := by
  have hend : (t ++ " */").trimEnd = (t ++ [' ']) ++ ['*', '/'] := by
    rw [Text.trimEnd_append (by decide), List.append_assoc]
    rfl
  have hstars : Sequence.dropEndWhile (· == '*') (t ++ [' ']) = t ++ [' '] := by
    simp [Sequence.dropEndWhile]
  rw [dropBlockClose_of_closed hend, hstars]
  simp [Text.trimEnd, Sequence.dropEndWhile, Text.isBlank]

/-! ## The whole comment -/

theorem of?_java_javadocRow (t : Text) : MarkerStyle.of? .java (javadocRow t) = some .block := rfl

theorem cleanBlock_javadoc (hw : w.allBlank = true) (rows : List Text) :
    cleanBlock (javadocRows w rows) = [] :: rows ++ [[]] := by
  have hbody : (rows.map (starred w)).map dropBlockStar = rows := by
    rw [List.map_map]
    exact List.map_id'' (dropBlockStar_starred hw) rows
  have hclose : dropBlockClose (w ++ " */") = [] := by
    rw [dropBlockClose_append, Text.trimEnd_eq_nil_iff.mpr hw]
  rw [javadocRows, cleanBlock_cons _ (by simp), Sequence.mapLast_concat, List.map_append, hbody,
    hclose]
  rfl

theorem cleanBlock_javadocRow (t : Text) : cleanBlock [javadocRow t] = [t.trimEnd] :=
  calc cleanBlock [javadocRow t]
      = [dropBlockClose (dropBlockOpen (javadocRow t))] := rfl
    _ = [dropBlockClose (t ++ " */")] := by
        rw [javadocRow, List.append_assoc, dropBlockOpen_javadoc]
    _ = [t.trimEnd] := by rw [dropBlockClose_append]

theorem newline_not_mem_starred (hw : '\n' ∉ w) (hrow : '\n' ∉ row) : '\n' ∉ starred w row := by
  simp [starred, hw, hrow]

theorem lines_javadoc (hw : '\n' ∉ w) (hrows : ∀ row ∈ rows, '\n' ∉ row) :
    (javadoc w rows).lines = javadocRows w rows := by
  refine Text.lines_unlines (List.cons_ne_nil _ _) fun row hrow => ?_
  rcases List.mem_cons.mp hrow with rfl | hrow
  · decide
  rcases List.mem_append.mp hrow with hbody | hlast
  · obtain ⟨own, hown, rfl⟩ := List.mem_map.mp hbody
    exact newline_not_mem_starred hw (hrows own hown)
  · rw [List.mem_singleton.mp hlast]
    simp [hw]

theorem of?_java_javadoc (w : Text) (rows : List Text) :
    MarkerStyle.of? .java (javadoc w rows) = some .block := by
  rw [javadoc, javadocRows, Text.unlines_cons (by simp)]
  exact of?_java_of_open _

/-- Cleaning undoes the writing of a javadoc comment. The rows come back as they were, between two
empty ones for the markers; a text in one row loses the white space at its end. -/
theorem clean_javadoc (hw : w.IsIndent) (hrows : ∀ row ∈ rows, '\n' ∉ row) (ht : '\n' ∉ t) :
    (clean (some .java) (javadoc w rows)).lines = [] :: rows ++ [[]] ∧
    clean (some .java) (javadocRow t) = t.trimEnd := by
  constructor
  · rw [lines_clean (of?_java_javadoc w rows), lines_javadoc hw.line hrows]
    exact cleanBlock_javadoc hw.blank rows
  · have hline : '\n' ∉ javadocRow t := by simp [javadocRow, ht]
    have hrow : (clean (some .java) (javadocRow t)).lines = [t.trimEnd] := by
      rw [lines_clean (of?_java_javadocRow t), Text.lines_eq_singleton hline]
      exact cleanBlock_javadocRow t
    rw [← Text.unlines_lines (clean (some .java) (javadocRow t)), hrow]
    simp [Text.unlines]

theorem clean_javadoc_of_stars :
    Text.IsIndent "\t " ∧
    (clean (some .java) (javadoc "\t " ["  * deep", "*/", "", "/** inner **", "/"])).lines =
      ["", "  * deep", "*/", "", "/** inner **", "/", ""] ∧
    clean (some .java) (javadocRow "* a */ b ** \t") = "* a */ b **" := by
  have hw : Text.IsIndent "\t " := ⟨by decide, by decide⟩
  have hrows : ∀ row ∈ (["  * deep", "*/", "", "/** inner **", "/"] : List Text), '\n' ∉ row := by
    decide
  have hclean := clean_javadoc (t := "* a */ b ** \t") hw hrows (by decide)
  exact ⟨hw, hclean.1, hclean.2⟩

end Marginalia.Comment
