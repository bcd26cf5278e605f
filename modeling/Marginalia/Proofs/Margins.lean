import Marginalia.Proofs.Depth

/-!
Docstrings written at a margin. Rows that are written as one come back when it is cleaned: its
quotes and the margin go, and what a row is indented by beyond the margin stays.
-/

namespace Marginalia.Comment

open Text (Indented IsIndent moveRight)

/-- The quotes that reach over several rows. -/
def tripleQuotes : List Text := ["\"\"\"", "'''"]

/-- At most two of the letters that can stand in front of a quote. -/
structure IsStringPrefix (letters : Text) : Prop where
  length_le : letters.length ≤ 2
  all : letters.all isStringPrefix = true

/-- The first row behind the quote that opens, the others at the margin `w`, and a row for the quote
that closes. -/
def docstringRows (letters quote w first : Text) (rows : List Text) : List Text :=
  (letters ++ quote ++ first) :: (rows.map (moveRight w) ++ [w ++ quote])

/-- The rows as a docstring. -/
def docstring (letters quote w first : Text) (rows : List Text) : Text :=
  Text.unlines (docstringRows letters quote w first rows)

/-- A row without its white space, if it has nothing else. -/
def emptied (row : Text) : Text := if row.allBlank then [] else row

variable {letters quote w first row : Text} {rows : List Text}

/-! ## The opening quote -/

theorem IsStringPrefix.of_mem {c : Char} (h : IsStringPrefix letters) (hc : c ∈ letters) :
    Text.isBlank c = false ∧ '#' ≠ c ∧ '\n' ≠ c := by
  have hopens : (("rRuUbBfF" : Text).all fun c =>
      !Text.isBlank c && '#' != c && '\n' != c) = true := by decide
  have hletter : c ∈ "rRuUbBfF".toList :=
    List.contains_iff_mem.mp (List.all_eq_true.mp h.all c hc)
  simpa only [Bool.and_eq_true, Bool.not_eq_true', bne_iff_ne, and_assoc] using
    List.all_eq_true.mp hopens c hletter

/-- A docstring begins with a letter or a quote. -/
theorem exists_opening (hletters : IsStringPrefix letters) (hquote : quote ∈ tripleQuotes)
    (t : Text) :
    ∃ c rest, letters ++ (quote ++ t) = c :: rest ∧ Text.isBlank c = false ∧ '#' ≠ c := by
  cases letters with
  | nil =>
      rcases List.mem_pair.mp hquote with rfl | rfl
      · exact ⟨_, _, rfl, rfl, by decide⟩
      · exact ⟨_, _, rfl, rfl, by decide⟩
  | cons c rest =>
      obtain ⟨hblank, hne, -⟩ := hletters.of_mem List.mem_cons_self
      exact ⟨c, rest ++ (quote ++ t), rfl, hblank, hne⟩

theorem trimStart_opening (hletters : IsStringPrefix letters) (hquote : quote ∈ tripleQuotes)
    (t : Text) : Text.trimStart (letters ++ (quote ++ t)) = letters ++ (quote ++ t) := by
  obtain ⟨c, rest, heq, hblank, -⟩ := exists_opening hletters hquote t
  rw [heq]
  exact List.dropWhile_cons_of_neg (by rw [hblank]; decide)

theorem of?_python_opening (hletters : IsStringPrefix letters) (hquote : quote ∈ tripleQuotes)
    (t : Text) : MarkerStyle.of? .python (letters ++ (quote ++ t)) = some .docstring := by
  have hopen : ¬ ("#" : Text).isPrefixOf (letters ++ (quote ++ t)) = true := by
    obtain ⟨c, rest, heq, -, hhash⟩ := exists_opening hletters hquote t
    rw [heq]
    simp [List.isPrefixOf, hhash]
  simp only [MarkerStyle.of?, trimStart_opening hletters hquote, if_neg hopen]

/-- The letters end at the quote, and of the quotes that stand there the longest opens. -/
theorem openDocstring?_opening (hletters : IsStringPrefix letters) (hquote : quote ∈ tripleQuotes)
    (t : Text) : openDocstring? (letters ++ (quote ++ t)) = some (quote, t) := by
  have hall := List.all_eq_true.mp hletters.all
  have hquoted : (quote ++ t).takeWhile isStringPrefix = [] ∧
      (quote ++ t).dropWhile isStringPrefix = quote ++ t ∧
      docstringQuotes.find? (·.isPrefixOf (quote ++ t)) = some quote := by
    rcases List.mem_pair.mp hquote with rfl | rfl
    · exact ⟨rfl, rfl, rfl⟩
    · exact ⟨rfl, rfl, rfl⟩
  obtain ⟨hletter, hbody, hfound⟩ := hquoted
  simp only [openDocstring?, trimStart_opening hletters hquote,
    List.takeWhile_append_of_pos hall, List.dropWhile_append_of_pos hall, hletter, hbody, hfound,
    List.append_nil, if_pos hletters.length_le, Option.map_some, List.drop_left]

/-! ## The closing quote -/

theorem dropQuoteEnd_closing (hquote : quote ∈ tripleQuotes) (w : Text) :
    dropQuoteEnd quote (w ++ quote) = w := by
  have hquotes : ∀ q ∈ tripleQuotes, q.allBlank = false ∧ q.trimEnd = q := by decide
  obtain ⟨hblank, hend⟩ := hquotes quote hquote
  exact dropQuoteEnd_of_closed (by rw [Text.trimEnd_append hblank, hend])

/-! ## The margin -/

theorem drop_moveRight (w row : Text) :
    (if (moveRight w row).allBlank then [] else (moveRight w row).drop w.length) = emptied row := by
  rw [emptied, moveRight]
  split
  · rfl
  · rename_i hrow
    rw [if_neg (by simp [Text.allBlank_append_left (eq_false_of_ne_true hrow)]), List.drop_left]

theorem margin?_eq_zero (hflush : ∃ row ∈ rows, row.allBlank = false ∧ row.indent = 0) :
    margin? rows = some 0 := by
  obtain ⟨row, hrow, hshown, hindent⟩ := hflush
  have hmem : 0 ∈ (rows.filter fun r => !r.allBlank).map Text.indent :=
    List.mem_map.mpr ⟨row, List.mem_filter.mpr ⟨hrow, by simp [hshown]⟩, hindent⟩
  exact List.min?_eq_some_iff.mpr ⟨hmem, fun n _ => Nat.zero_le n⟩

/-- The row of the closing quote is blank without it, so it has no say in the margin. -/
theorem margin?_moveRight (hw : w.allBlank = true) (rows : List Text) :
    margin? (rows.map (moveRight w) ++ [w]) = (margin? rows).map (w.length + ·) := by
  have hmoved : List.Forall₂ (Indented w) rows (rows.map (moveRight w)) :=
    List.forall₂_map_right_iff.mpr
      (List.forall₂_same.mpr fun row _ => Text.indented_moveRight w row)
  rw [← margin?_of_indented hw hmoved, margin?, margin?, List.filter_append,
    List.filter_cons_of_neg (by simp [hw]), List.filter_nil, List.append_nil]

theorem dedent_moveRight (hw : w.allBlank = true)
    (hflush : ∃ row ∈ rows, row.allBlank = false ∧ row.indent = 0) :
    dedent (rows.map (moveRight w) ++ [w]) = rows.map emptied ++ [[]] := by
  rw [dedent, margin?_moveRight hw, margin?_eq_zero hflush]
  simp only [Option.map_some, Nat.add_zero, List.map_append, List.map_map, List.map_cons,
    List.map_nil, if_pos hw]
  exact congrArg (· ++ _) (List.map_congr_left fun row _ => drop_moveRight w row)

/-! ## The whole comment -/

theorem cleanDocstring_docstring (hletters : IsStringPrefix letters)
    (hquote : quote ∈ tripleQuotes) (hw : w.allBlank = true)
    (hflush : ∃ row ∈ rows, row.allBlank = false ∧ row.indent = 0) :
    cleanDocstring (docstringRows letters quote w first rows) =
      first :: rows.map emptied ++ [[]] := by
  have hopen : openDocstring? (letters ++ quote ++ first) = some (quote, first) := by
    rw [List.append_assoc]
    exact openDocstring?_opening hletters hquote first
  have hclose : Sequence.mapLast (dropQuoteEnd quote)
      (first :: (rows.map (moveRight w) ++ [w ++ quote])) =
      first :: (rows.map (moveRight w) ++ [w]) := by
    rw [Sequence.mapLast_cons (by simp), Sequence.mapLast_concat, dropQuoteEnd_closing hquote]
  rw [docstringRows, cleanDocstring, List.head?_cons, Option.getD_some, hopen]
  change dedentTail (Sequence.mapLast (dropQuoteEnd quote) (first :: _)) = _
  rw [hclose, dedentTail, dedent_moveRight hw hflush, List.cons_append]

theorem lines_docstring (hletters : IsStringPrefix letters) (hquote : quote ∈ tripleQuotes)
    (hw : '\n' ∉ w) (hfirst : '\n' ∉ first) (hrows : ∀ row ∈ rows, '\n' ∉ row) :
    (docstring letters quote w first rows).lines = docstringRows letters quote w first rows := by
  have hquotes : ∀ q ∈ tripleQuotes, '\n' ∉ q := by decide
  have hletter : '\n' ∉ letters := fun hmem => (hletters.of_mem hmem).2.2 rfl
  refine Text.lines_unlines (List.cons_ne_nil _ _) fun row hrow => ?_
  rcases List.mem_cons.mp hrow with rfl | hrow
  · simp [hletter, hquotes quote hquote, hfirst]
  rcases List.mem_append.mp hrow with hbody | hlast
  · obtain ⟨own, hown, rfl⟩ := List.mem_map.mp hbody
    exact Text.newline_not_mem_moveRight hw (hrows own hown)
  · rw [List.mem_singleton.mp hlast]
    simp [hw, hquotes quote hquote]

theorem of?_python_docstring (hletters : IsStringPrefix letters) (hquote : quote ∈ tripleQuotes) :
    MarkerStyle.of? .python (docstring letters quote w first rows) = some .docstring := by
  rw [docstring, docstringRows, Text.unlines_cons (by simp), List.append_assoc, List.append_assoc]
  exact of?_python_opening hletters hquote _

/-- Cleaning undoes the writing of a docstring, where not all rows are indented beyond the margin.
All rows come back as they were, the blank ones empty, with an empty row for the closing quote. -/
theorem clean_docstring (hletters : IsStringPrefix letters) (hquote : quote ∈ tripleQuotes)
    (hw : w.IsIndent) (hfirst : '\n' ∉ first) (hrows : ∀ row ∈ rows, '\n' ∉ row)
    (hflush : ∃ row ∈ rows, row.allBlank = false ∧ row.indent = 0) :
    (clean (some .python) (docstring letters quote w first rows)).lines =
      first :: rows.map emptied ++ [[]] := by
  rw [lines_clean (of?_python_docstring hletters hquote),
    lines_docstring hletters hquote hw.line hfirst hrows]
  exact cleanDocstring_docstring hletters hquote hw.blank hflush

/-- Rows with quotes at their ends and with letters in front of them, of several depths, and a blank
one. -/
def quotedRows : List Text := ["  '''a\"\"\"", " \t", "r\"\"\"b", "\t\tc '''"]

theorem clean_docstring_of_quotes :
    IsStringPrefix "Rb" ∧ "\"\"\"".toList ∈ tripleQuotes ∧ Text.IsIndent "\t " ∧
    (∀ row ∈ quotedRows, '\n' ∉ row) ∧
    (∃ row ∈ quotedRows, row.allBlank = false ∧ row.indent = 0) ∧
    (clean (some .python) (docstring "Rb" "\"\"\"" "\t " "\" f" quotedRows)).lines =
      ["\" f", "  '''a\"\"\"", "", "r\"\"\"b", "\t\tc '''", ""] := by
  have hletters : IsStringPrefix "Rb" := ⟨by decide, by decide⟩
  have hquote : "\"\"\"".toList ∈ tripleQuotes := List.mem_cons_self
  have hw : Text.IsIndent "\t " := ⟨by decide, by decide⟩
  have hrows : ∀ row ∈ quotedRows, '\n' ∉ row := by decide
  have hflush : ∃ row ∈ quotedRows, row.allBlank = false ∧ row.indent = 0 := by decide
  have hfirst : '\n' ∉ ("\" f" : Text) := by decide
  have hclean := clean_docstring hletters hquote hw hfirst hrows hflush
  exact ⟨hletters, hquote, hw, hrows, hflush, hclean⟩

end Marginalia.Comment
