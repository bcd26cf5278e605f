import Marginalia.Comment.Span
import Marginalia.Proofs.Paragraphs

/-!
Spans of paragraphs. The search for the rows of a paragraph ends at the first rows of the cleaned
comment that resemble it, at its own rows at the latest; the columns are those where its first and
its last row stand there.
-/

namespace Marginalia.Comment

variable {language : Option Language} {rows paragraph : List Text} {first last : Nat}

/-! ## Rows that resemble a run -/

/-- The rows from `i` on hold the rows of the run, trimmed, one by one. -/
def Resembles (rows : List Text) (run : Nat × Nat) (i : Nat) : Prop :=
  List.Forall₂ (fun own other => own.trim <:+: other) (Sequence.between rows run)
    (Sequence.between rows (i, i + (run.2 - run.1)))

instance (rows : List Text) (run : Nat × Nat) (i : Nat) : Decidable (Resembles rows run i) :=
  inferInstanceAs (Decidable (List.Forall₂ _ _ _))

theorem resembles_self (rows : List Text) (h : first ≤ last) :
    Resembles rows (first, last) first := by
  rw [Resembles, Nat.add_sub_cancel' h]
  exact List.forall₂_same.mpr fun row _ => row.trim_infix

theorem Resembles.getElem? {i : Nat} (h : Resembles rows (first, last) i) {j : Nat}
    (hj : first + j ≤ last) {own : Text} (hown : rows[first + j]? = some own) :
    ∃ other, rows[i + j]? = some other ∧ own.trim <:+: other := by
  have hat : (Sequence.between rows (first, last))[j]? = some own := by
    rw [Sequence.getElem?_between, if_pos hj, hown]
  obtain ⟨other, hother, hin⟩ := Sequence.getElem?_of_forall₂ h hat
  rw [Sequence.getElem?_between, if_pos (by omega)] at hother
  exact ⟨other, hother, hin⟩

/-! ## The search for the rows -/

theorem firstContent_cons {row : Text} (h : row.allBlank = false) (rest : List Text) :
    firstContent (row :: rest) = row.trim := by
  rw [firstContent, List.find?_cons_of_pos (by rw [h]; rfl)]
  rfl

theorem startsParagraph_iff (hne : paragraph ≠ [])
    (hb : ∀ row ∈ paragraph, row.allBlank = false) (rows : List Text) :
    startsParagraph paragraph rows = true ↔
      List.Forall₂ (fun wanted row => wanted.trim <:+: row) paragraph
        (rows.take paragraph.length) := by
  obtain ⟨head, rest, rfl⟩ := List.exists_cons_of_ne_nil hne
  cases rows with
  | nil => simp [startsParagraph, continues]
  | cons row rows =>
      rw [Sequence.forall₂_take_iff, startsParagraph, continues,
        firstContent_cons (hb head List.mem_cons_self)]
      simp only [Bool.and_eq_true, decide_eq_true_eq, List.all_eq_true, Sequence.occursIn_iff,
        List.zip_cons_cons, List.forall_mem_cons, List.head?_cons, Option.getD_some,
        List.tail_cons]
      exact and_left_comm

section

variable (h : Sequence.IsRun (isBoundary language) rows first last)
  (hp : paragraph.map Text.trim = (Sequence.between rows (first, last)).map Text.trim)

include h hp

theorem allBlank_of_mem_paragraph {row : Text} (hr : row ∈ paragraph) : row.allBlank = false := by
  have hm : row.trim ∈ (Sequence.between rows (first, last)).map Text.trim :=
    hp ▸ List.mem_map_of_mem hr
  obtain ⟨own, hown, he⟩ := List.mem_map.mp hm
  have hb := allBlank_of_isBoundary_eq_false (h.of_mem_between hown)
  rw [Bool.eq_false_iff, Ne, ← Text.trim_eq_nil_iff, ← he]
  exact Text.trim_ne_nil hb

theorem length_paragraph : paragraph.length = last + 1 - first := by
  rw [← List.length_map Text.trim, hp, List.length_map, h.length_between]

theorem startsParagraph_drop_iff (i : Nat) :
    startsParagraph paragraph (rows.drop i) = true ↔ Resembles rows (first, last) i := by
  have hl := length_paragraph h hp
  have hord := h.ordered
  have hne : paragraph ≠ [] := List.ne_nil_of_length_pos (by omega)
  have hat : (rows.drop i).take paragraph.length =
      Sequence.between rows (i, i + (last - first)) := by
    rw [Sequence.between, Sequence.slice, List.drop_take, hl]
    congr 1
    omega
  rw [startsParagraph_iff hne fun row hr => allBlank_of_mem_paragraph h hp hr, hat, Resembles,
    ← List.forall₂_map_left_iff (f := Text.trim) (R := (· <:+: ·)), hp, List.forall₂_map_left_iff]

/-- A paragraph is found at the first rows that resemble its own ones. -/
theorem locateRows_eq :
    ∃ i ≤ first, Resembles rows (first, last) i ∧
      (∀ j < i, ¬ Resembles rows (first, last) j) ∧
      locateRows rows paragraph = (i, i + (last - first)) := by
  have hl := length_paragraph h hp
  have hord := h.ordered
  have hself := (startsParagraph_drop_iff h hp first).mpr (resembles_self rows hord)
  obtain ⟨i, hi, hfound⟩ := Sequence.exists_firstTail? (Nat.lt_of_le_of_lt hord h.inside) hself
  obtain ⟨-, hat, hbefore⟩ := Sequence.firstTail?_eq_some hfound
  refine ⟨i, hi, (startsParagraph_drop_iff h hp i).mp hat, fun j hj hr => ?_, ?_⟩
  · rw [← startsParagraph_drop_iff h hp, hbefore j hj] at hr
    cases hr
  · obtain ⟨head, rest, he⟩ : ∃ head rest, paragraph = head :: rest :=
      List.exists_cons_of_ne_nil (List.ne_nil_of_length_pos (by omega))
    have hb : head.allBlank = false := allBlank_of_mem_paragraph h hp (he ▸ List.mem_cons_self)
    have hfirst : (firstContent paragraph).isEmpty = false := by
      rw [he, firstContent_cons hb, List.isEmpty_eq_false_iff]
      exact Text.trim_ne_nil hb
    rw [locateRows]
    simp only [hfirst, hfound, Bool.false_eq_true, if_false, hl]
    congr 1
    omega

end

/-! ## The span -/

/-- The rows stand in the source from row `top` on, each that is not empty within the row of the
source beside it, and none below row `bottom`. -/
def StandsFrom (source rows : List Text) (top bottom : Nat) : Prop :=
  ∀ j row, rows[j]? = some row → row ≠ [] →
    top + j ≤ bottom ∧ ∃ line, source[top + j]? = some line ∧ row <:+: line

/-- The columns are those where the first row, trimmed, begins and the last one ends, in the rows of
the source where the content stands. -/
structure Points (source content : List Text) (top left right : Nat) : Prop where
  within : ∀ j row, content[j]? = some row →
    row.trim ≠ [] ∧ ∃ line, source[top + j]? = some line ∧ row.trim <:+: line
  opens : ∃ row line, content.head? = some row ∧ source[top]? = some line ∧
    Sequence.indexOf? row.trim line = some left
  closes : ∃ row line column, content.getLast? = some row ∧
    source[top + (content.length - 1)]? = some line ∧
    Sequence.indexOf? row.trim line = some column ∧ right = column + row.trim.length

theorem exists_findInRow {source : List Text} {row : Nat} (h : row < source.length)
    (wanted : Text) : ∃ column, findInRow source row wanted = some column := by
  rw [findInRow]
  split
  · exact ⟨none, rfl⟩
  · rw [Sequence.atWrapped?, if_pos (Int.natCast_nonneg row), Int.toNat_natCast,
      List.getElem?_eq_getElem h]
    exact ⟨_, rfl⟩

/-- There is a span wherever the rows of the capture are those of the source; its rows are the rows
that were located, cut to the last row of the capture. -/
theorem exists_recoverSpan? {capture : Capture} {cleaned paragraph : Text} {source : List Text}
    {top low first last : Nat} (hlocate : locateRows cleaned.lines paragraph.lines = (first, last))
    (hle : first ≤ last) (hrows : capture.rows = (↑top, ↑low)) (hlow : low < source.length) :
    ∃ columns, recoverSpan? capture cleaned paragraph source =
      some ⟨(↑(min (top + first) low), ↑(min (top + last) low)), columns⟩ := by
  have hbottom : min (low : Int) ((source.length - 1 : Nat) : Int) = low := by omega
  have hstart : min ((top : Int) + first) low = ((min (top + first) low : Nat) : Int) := by omega
  have hstop : max (min ((top : Int) + last) low) ((min (top + first) low : Nat) : Int) =
      ((min (top + last) low : Nat) : Int) := by omega
  have hopens : min (top + first) low < source.length := by omega
  have hcloses : min (top + last) low < source.length := by omega
  obtain ⟨opening, hopening⟩ := exists_findInRow hopens (firstContent paragraph.lines)
  obtain ⟨closing, hclosing⟩ := exists_findInRow hcloses (firstContent paragraph.lines.reverse)
  rw [recoverSpan?]
  simp only [hlocate, hrows, hbottom, hstart, hstop, hopening, hclosing, Option.bind_eq_bind,
    Option.bind_some]
  exact ⟨_, rfl⟩

theorem findInRow_eq {source : List Text} {row : Nat} {line wanted : Text}
    (hline : source[row]? = some line) (hne : wanted ≠ []) (hin : wanted <:+: line) :
    ∃ column, Sequence.indexOf? wanted line = some column ∧
      findInRow source row wanted = some (some column) := by
  obtain ⟨column, hc⟩ := Sequence.exists_indexOf?_of_infix hin
  have hlt : row < source.length := (List.getElem?_eq_some_iff.mp hline).1
  have hempty : wanted.isEmpty = false := List.isEmpty_eq_false_iff.mpr hne
  have hbelow : ¬ ((source.length : Int) ≤ row) := by omega
  have hrow : (0 : Int) ≤ row := Int.natCast_nonneg row
  refine ⟨column, hc, ?_⟩
  rw [findInRow, hempty, Bool.false_or, if_neg (by simpa using hbelow), Sequence.atWrapped?,
    if_pos hrow, Int.toNat_natCast, hline, Option.map_some, hc]

section

variable {source : List Text} {top bottom i : Nat}
  (hp : paragraph.map Text.trim = (Sequence.between rows (first, last)).map Text.trim)
  (hb : ∀ row ∈ paragraph, row.allBlank = false)
  (hr : Resembles rows (first, last) i)
  (hs : StandsFrom source rows top bottom)

include hp hb hr hs

theorem standsFrom_of_resembles {j : Nat} {row : Text} (hj : paragraph[j]? = some row) :
    row.trim ≠ [] ∧ top + i + j ≤ bottom ∧
      ∃ line, source[top + i + j]? = some line ∧ row.trim <:+: line := by
  have hne : row.trim ≠ [] := Text.trim_ne_nil (hb row (List.mem_of_getElem? hj))
  have hat : ((Sequence.between rows (first, last)).map Text.trim)[j]? = some row.trim := by
    rw [← hp, List.getElem?_map, hj, Option.map_some]
  rw [List.getElem?_map, Option.map_eq_some_iff] at hat
  obtain ⟨own, hown, he⟩ := hat
  rw [Sequence.getElem?_between] at hown
  split at hown
  · rename_i hle
    obtain ⟨other, hother, hin⟩ := hr.getElem? hle hown
    have hother_ne : other ≠ [] := fun h => hne (List.infix_nil.mp (he ▸ h ▸ hin))
    obtain ⟨hbottom, line, hline, hwithin⟩ := hs (i + j) other hother hother_ne
    rw [← Nat.add_assoc] at hbottom hline
    exact ⟨hne, hbottom, line, hline, (he ▸ hin).trans hwithin⟩
  · cases hown

end

/-- The span of a paragraph is where the first rows that resemble its own ones stand in the source,
unless the capture ends above them. -/
theorem recoverSpan?_eq {cleaned paragraph : Text} {source : List Text} {top bottom : Nat}
    (h : Sequence.IsRun (isBoundary language) cleaned.lines first last)
    (hp : paragraph.lines.map Text.trim =
      (Sequence.between cleaned.lines (first, last)).map Text.trim)
    (hs : StandsFrom source cleaned.lines top bottom) :
    ∃ i ≤ first, Resembles cleaned.lines (first, last) i ∧
      (∀ j < i, ¬ Resembles cleaned.lines (first, last) j) ∧
      locateRows cleaned.lines paragraph.lines = (i, i + (last - first)) ∧
      top + i + (last - first) ≤ bottom ∧
      ∃ left right, Points source paragraph.lines (top + i) left right ∧
        ∀ capture : Capture, ∀ low : Nat, capture.rows = (↑top, ↑low) →
          top + i + (last - first) ≤ low → low < source.length →
          recoverSpan? capture cleaned paragraph source =
            some ⟨(↑(top + i), ↑(top + i + (last - first))), (↑left, ↑right)⟩ := by
  obtain ⟨i, hi, hr, hbefore, hlocate⟩ := locateRows_eq h hp
  have hl := length_paragraph h hp
  have hord := h.ordered
  have hblank : ∀ row ∈ paragraph.lines, row.allBlank = false :=
    fun row => allBlank_of_mem_paragraph h hp
  have hstand : ∀ j row, paragraph.lines[j]? = some row → row.trim ≠ [] ∧
      top + i + j ≤ bottom ∧ ∃ line, source[top + i + j]? = some line ∧ row.trim <:+: line :=
    fun j row hj => standsFrom_of_resembles hp hblank hr hs hj
  -- The first and the last row of the paragraph, and the rows of the source that hold them.
  obtain ⟨head, rest, hhead⟩ := List.exists_cons_of_ne_nil (Text.lines_ne_nil paragraph)
  obtain ⟨front, final, hfinal⟩ : ∃ front final, paragraph.lines = front ++ [final] :=
    ⟨_, _, (List.dropLast_append_getLast (Text.lines_ne_nil paragraph)).symm⟩
  have hhead0 : paragraph.lines[0]? = some head := by rw [hhead]; rfl
  have hfinalLast : paragraph.lines[last - first]? = some final := by
    rw [show last - first = paragraph.lines.length - 1 by omega, ← List.getLast?_eq_getElem?,
      hfinal, List.getLast?_concat]
  obtain ⟨hne₁, -, opening, hopening, hin₁⟩ := hstand 0 head hhead0
  obtain ⟨hne₂, hlow, closing, hclosing, hin₂⟩ := hstand (last - first) final hfinalLast
  rw [Nat.add_zero] at hopening
  obtain ⟨left, hleft, hfind₁⟩ := findInRow_eq hopening hne₁ hin₁
  obtain ⟨column, hcolumn, hfind₂⟩ := findInRow_eq hclosing hne₂ hin₂
  refine ⟨i, hi, hr, hbefore, hlocate, hlow, left, column + final.trim.length, ⟨?_, ?_, ?_⟩, ?_⟩
  · intro j row hj
    obtain ⟨hne, -, hline⟩ := hstand j row hj
    exact ⟨hne, hline⟩
  · exact ⟨head, opening, by rw [hhead]; rfl, hopening, hleft⟩
  · refine ⟨final, closing, column, by rw [hfinal, List.getLast?_concat], ?_, hcolumn, rfl⟩
    rw [hl, show last + 1 - first - 1 = last - first by omega, hclosing]
  · intro capture low hrows hend hlt
    have hfirst : firstContent paragraph.lines = head.trim := by
      rw [hhead, firstContent_cons (hblank head (hhead ▸ List.mem_cons_self))]
    have hlast : firstContent paragraph.lines.reverse = final.trim := by
      have hm : final ∈ paragraph.lines := by rw [hfinal]; exact List.mem_concat_self
      rw [hfinal, List.reverse_append, List.reverse_singleton, List.singleton_append,
        firstContent_cons (hblank final hm)]
    have hbot : min (low : Int) ((source.length - 1 : Nat) : Int) = low := by omega
    have hstart : min ((top : Int) + (i : Int)) low = ((top + i : Nat) : Int) := by omega
    have hstop : max (min ((top : Int) + ((i + (last - first) : Nat) : Int)) low)
        ((top + i : Nat) : Int) = ((top + i + (last - first) : Nat) : Int) := by omega
    rw [recoverSpan?]
    simp only [hlocate, hrows, hfirst, hlast, hbot, hstart, hstop, hfind₁, hfind₂,
      Option.bind_eq_bind, Option.bind_some]

end Marginalia.Comment
