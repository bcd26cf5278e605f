import Marginalia.Comment.Markers
import Marginalia.Proofs.Blank

/-!
Taking the markers off a comment leaves it its rows, and of each row a stretch. What a row loses at
its ends is white space and characters of markers.
-/

namespace Marginalia.Comment

/-! ## Marks at the ends of a text -/

/-- White space, and the characters that markers are made of. -/
def isMark (c : Char) : Bool :=
  Text.isBlank c || ("/*#\"'" : Text).contains c || isStringPrefix c

/-- The second text is the first one behind marks. -/
def BehindMarks (t u : Text) : Prop := ∃ front : Text, front.all isMark = true ∧ u = front ++ t

/-- The second text is the first one in front of marks. -/
def BeforeMarks (t u : Text) : Prop := ∃ back : Text, back.all isMark = true ∧ u = t ++ back

/-- The first text is what is left of the second one without marks at its ends. -/
def Stripped (t u : Text) : Prop :=
  ∃ front back : Text, u = front ++ t ++ back ∧ (front ++ back).all isMark = true

section

variable {t u v front rest row quote : Text} {mark : Char}

theorem isMark_of_isBlank {c : Char} (h : Text.isBlank c = true) : isMark c = true := by
  simp [isMark, h]

theorem BehindMarks.refl (t : Text) : BehindMarks t t := ⟨[], rfl, rfl⟩

theorem BehindMarks.trans (h : BehindMarks t u) (h' : BehindMarks u v) : BehindMarks t v := by
  obtain ⟨front, hfront, rfl⟩ := h
  obtain ⟨front', hfront', rfl⟩ := h'
  exact ⟨front' ++ front, by simp [hfront, hfront'], by simp⟩

theorem BehindMarks.reverse (h : BehindMarks t u) : BeforeMarks t.reverse u.reverse := by
  obtain ⟨front, hfront, rfl⟩ := h
  exact ⟨front.reverse, by simpa using hfront, by simp⟩

theorem BeforeMarks.refl (t : Text) : BeforeMarks t t := ⟨[], rfl, by simp⟩

theorem BeforeMarks.trans (h : BeforeMarks t u) (h' : BeforeMarks u v) : BeforeMarks t v := by
  obtain ⟨back, hback, rfl⟩ := h
  obtain ⟨back', hback', rfl⟩ := h'
  exact ⟨back ++ back', by simp [hback, hback'], by simp⟩

theorem BeforeMarks.isPrefix (h : BeforeMarks t u) : t <+: u := by
  obtain ⟨back, -, rfl⟩ := h
  exact List.prefix_append t back

theorem Stripped.refl (t : Text) : Stripped t t := ⟨[], [], by simp, rfl⟩

theorem Stripped.trans (h : Stripped t u) (h' : Stripped u v) : Stripped t v := by
  obtain ⟨front, back, rfl, hmarks⟩ := h
  obtain ⟨front', back', rfl, hmarks'⟩ := h'
  refine ⟨front' ++ front, back ++ back', by simp, ?_⟩
  simp only [List.all_append, Bool.and_eq_true] at hmarks hmarks' ⊢
  exact ⟨⟨hmarks'.1, hmarks.1⟩, hmarks.2, hmarks'.2⟩

theorem Stripped.isInfix (h : Stripped t u) : t <:+: u := by
  obtain ⟨front, back, rfl, -⟩ := h
  exact ⟨front, back, rfl⟩

theorem BehindMarks.stripped (h : BehindMarks t u) : Stripped t u := by
  obtain ⟨front, hfront, rfl⟩ := h
  exact ⟨front, [], by simp, by simpa using hfront⟩

theorem BeforeMarks.stripped (h : BeforeMarks t u) : Stripped t u := by
  obtain ⟨back, hback, rfl⟩ := h
  exact ⟨[], back, by simp, hback⟩

theorem stripped_nil (h : t.allBlank = true) : Stripped [] t := by
  refine ⟨t, [], by simp, ?_⟩
  simp only [List.append_nil, List.all_eq_true]
  exact fun c hc => isMark_of_isBlank (Text.allBlank_iff.mp h c hc)

theorem behindMarks_append (front : Text) (h : front.all isMark = true) (t : Text) :
    BehindMarks t (front ++ t) :=
  ⟨front, h, rfl⟩

theorem behindMarks_dropWhile {p : Char → Bool} (h : ∀ c, p c = true → isMark c = true) (t : Text) :
    BehindMarks (t.dropWhile p) t :=
  ⟨t.takeWhile p, List.all_eq_true.mpr fun c hc => h c (List.mem_takeWhile_imp hc),
    List.takeWhile_append_dropWhile.symm⟩

theorem behindMarks_trimStart (t : Text) : BehindMarks t.trimStart t :=
  behindMarks_dropWhile (fun _ => isMark_of_isBlank) t

theorem beforeMarks_trimEnd (t : Text) : BeforeMarks t.trimEnd t := by
  have h := (behindMarks_trimStart t.reverse).reverse
  rwa [List.reverse_reverse] at h

theorem behindMarks_dropBlank (t : Text) : BehindMarks t.dropBlank t := by
  cases t with
  | nil => exact .refl []
  | cons c rest =>
      simp only [Text.dropBlank]
      split
      · rename_i hc
        exact behindMarks_append [c] (by simp [isMark_of_isBlank hc]) rest
      · exact .refl _

theorem behindMarks_of_trimStart_eq (mark : Text) (hmark : mark.all isMark = true)
    (h : row.trimStart = mark ++ rest) : BehindMarks rest row :=
  (behindMarks_append mark hmark rest).trans (h ▸ behindMarks_trimStart row)

theorem behindMarks_dropBlank_of_trimStart_eq (mark : Text) (hmark : mark.all isMark = true)
    (h : row.trimStart = mark ++ rest) : BehindMarks (Text.dropBlank rest) row :=
  (behindMarks_dropBlank rest).trans (behindMarks_of_trimStart_eq mark hmark h)

theorem behindMarks_dropWhile_eq (mark : Char) (hmark : isMark mark = true) (t : Text) :
    BehindMarks (t.dropWhile (· == mark)) t :=
  behindMarks_dropWhile (fun c hc => by rwa [beq_iff_eq.mp hc]) t

/-- Of the marks that a text begins with, the last one can stay. -/
theorem behindMarks_cons_dropWhile (hmark : isMark mark = true) (h : t.head? = some mark) :
    BehindMarks (mark :: t.dropWhile (· == mark)) t := by
  induction t with
  | nil => cases h
  | cons c rest ih =>
      cases h
      rw [List.dropWhile_cons_of_pos (p := (· == mark)) (beq_self_eq_true mark)]
      by_cases hnext : rest.head? = some mark
      · exact (ih hnext).trans (behindMarks_append [mark] (by simp [hmark]) rest)
      · have hdrop : rest.dropWhile (· == mark) = rest := by
          cases rest with
          | nil => rfl
          | cons next rest => exact List.dropWhile_cons_of_neg (by simpa using hnext)
        rw [hdrop]
        exact .refl _

/-! ## One row -/

theorem behindMarks_dropBlockOpen (row : Text) : BehindMarks (dropBlockOpen row) row := by
  simp only [dropBlockOpen]
  split
  · rename_i rest h
    have hrest : BehindMarks rest row := behindMarks_of_trimStart_eq ['/', '*'] (by decide) h
    split
    · rename_i after hafter
      split
      · rename_i hstar
        rw [← hafter]
        exact (behindMarks_cons_dropWhile (by decide) (by simpa using hstar)).trans hrest
      · exact .refl row
    · exact (behindMarks_dropBlank _).trans
        ((behindMarks_dropWhile_eq '*' (by decide) rest).trans hrest)
  · exact .refl row

theorem beforeMarks_dropBlockClose (row : Text) : BeforeMarks (dropBlockClose row) row := by
  simp only [dropBlockClose]
  split
  · rename_i rest h
    have hrest : BehindMarks rest row.trimEnd.reverse :=
      h ▸ behindMarks_append ['/', '*'] (by decide) rest
    have hkept := ((behindMarks_trimStart _).trans
      (behindMarks_dropWhile_eq '*' (by decide) rest)).trans hrest
    have hclosed := hkept.reverse
    rw [List.reverse_reverse] at hclosed
    exact hclosed.trans (beforeMarks_trimEnd row)
  · exact .refl row

theorem dropBlockClose_isPrefix (row : Text) : dropBlockClose row <+: row :=
  (beforeMarks_dropBlockClose row).isPrefix

theorem behindMarks_dropBlockStar (row : Text) : BehindMarks (dropBlockStar row) row := by
  simp only [dropBlockStar]
  split
  · exact .refl row
  · rename_i rest _ h
    exact behindMarks_dropBlank_of_trimStart_eq ['*'] (by decide) h
  · exact .refl row

theorem behindMarks_dropSlashes (row : Text) : BehindMarks (dropSlashes row) row := by
  simp only [dropSlashes]
  split
  · rename_i rest h
    exact behindMarks_dropBlank_of_trimStart_eq ['/', '/'] (by decide) h
  · exact .refl row

theorem behindMarks_dropHash (row : Text) : BehindMarks (dropHash row) row := by
  simp only [dropHash]
  split
  · rename_i rest h
    exact behindMarks_dropBlank_of_trimStart_eq ['#'] (by decide) h
  · exact .refl row

theorem all_isMark_docstringQuotes : ∀ quote ∈ docstringQuotes, quote.all isMark = true := by
  decide

theorem behindMarks_of_openDocstring? (h : openDocstring? row = some (quote, rest)) :
    quote.all isMark = true ∧ BehindMarks rest row := by
  simp only [openDocstring?] at h
  split at h
  · obtain ⟨q, hfound, hq⟩ := Option.map_eq_some_iff.mp h
    cases hq
    have hquote := all_isMark_docstringQuotes quote (List.mem_of_find?_eq_some hfound)
    have hopens : quote <+: row.trimStart.dropWhile isStringPrefix :=
      List.isPrefixOf_iff_prefix.mp (by simpa using List.find?_some hfound)
    have hbody := behindMarks_dropWhile (p := isStringPrefix) (fun c hc => by simp [isMark, hc])
      row.trimStart
    refine ⟨hquote, BehindMarks.trans ?_ (hbody.trans (behindMarks_trimStart row))⟩
    exact ⟨quote, hquote, (List.prefix_iff_eq_append.mp hopens).symm⟩
  · cases h

theorem beforeMarks_dropQuoteEnd (h : quote.all isMark = true) (row : Text) :
    BeforeMarks (dropQuoteEnd quote row) row := by
  simp only [dropQuoteEnd]
  split
  · rename_i hends
    have hcloses := List.suffix_iff_eq_append.mp (List.isSuffixOf_iff_suffix.mp hends)
    exact BeforeMarks.trans ⟨quote, h, hcloses.symm⟩ (beforeMarks_trimEnd row)
  · exact .refl row

theorem behindMarks_dropOpenQuote (row : Text) : BehindMarks (dropOpenQuote row) row := by
  simp only [dropOpenQuote]
  split
  · rename_i rest h
    exact behindMarks_of_trimStart_eq ['"'] (by decide) h
  · exact .refl row

/-- In front of the first character that is not blank there is nothing to lose but white space. -/
theorem behindMarks_drop {n : Nat} (h : n ≤ row.indent) : BehindMarks (row.drop n) row := by
  refine ⟨row.take n, List.all_eq_true.mpr fun c hc => ?_, (List.take_append_drop n row).symm⟩
  have hpre : row.take n <+: row.takeWhile Text.isBlank :=
    List.prefix_of_prefix_length_le (List.take_prefix n row) (List.takeWhile_prefix _)
      (Nat.le_trans (List.length_take_le n row) h)
  exact isMark_of_isBlank (List.mem_takeWhile_imp (hpre.subset hc))

end

/-! ## All rows -/

open Text (RowsWithin)

/-- The rows, each of them what is left of the row at the same position. -/
abbrev RowsStripped (inner outer : List Text) : Prop := List.Forall₂ Stripped inner outer

theorem RowsStripped.trans {inner middle outer : List Text} (h : RowsStripped inner middle)
    (h' : RowsStripped middle outer) : RowsStripped inner outer :=
  Sequence.forall₂_trans (R := Stripped) (fun _ _ _ => Stripped.trans) h h'

theorem RowsStripped.within {inner outer : List Text} (h : RowsStripped inner outer) :
    RowsWithin inner outer :=
  h.imp fun _ _ => Stripped.isInfix

theorem rowsStripped_map {f : Text → Text} {rows : List Text}
    (h : ∀ row ∈ rows, Stripped (f row) row) : RowsStripped (rows.map f) rows :=
  List.forall₂_map_left_iff.mpr (List.forall₂_same.mpr h)

theorem cleanBlock_cons (row : Text) {tail : List Text} (h : tail ≠ []) :
    cleanBlock (row :: tail) =
      dropBlockOpen row :: (Sequence.mapLast dropBlockClose tail).map dropBlockStar := by
  obtain ⟨next, rest, rfl⟩ := List.exists_cons_of_ne_nil h
  rfl

theorem cleanBlock_stripped (rows : List Text) : RowsStripped (cleanBlock rows) rows := by
  have hopen : RowsStripped (Sequence.mapFirst dropBlockOpen rows) rows :=
    Sequence.forall₂_mapFirst .refl fun row _ => (behindMarks_dropBlockOpen row).stripped
  have hclose : RowsStripped
      (Sequence.mapLast dropBlockClose (Sequence.mapFirst dropBlockOpen rows))
      (Sequence.mapFirst dropBlockOpen rows) :=
    Sequence.forall₂_mapLast .refl fun row => (beforeMarks_dropBlockClose row).stripped
  have hstar : RowsStripped (cleanBlock rows) _ :=
    Sequence.forall₂_mapRest .refl fun row => (behindMarks_dropBlockStar row).stripped
  exact hstar.trans (hclose.trans hopen)

theorem cleanBlock_within (rows : List Text) : RowsWithin (cleanBlock rows) rows :=
  (cleanBlock_stripped rows).within

theorem le_indent_of_margin? {rows : List Text} {n : Nat} (h : margin? rows = some n) {row : Text}
    (hrow : row ∈ rows) (hshown : row.allBlank = false) : n ≤ row.indent := by
  obtain ⟨-, hleast⟩ := List.min?_eq_some_iff.mp h
  exact hleast _ (List.mem_map_of_mem (List.mem_filter.mpr ⟨hrow, by simp [hshown]⟩))

theorem dedent_stripped (rows : List Text) : RowsStripped (dedent rows) rows := by
  simp only [dedent]
  split
  · rename_i n hmargin
    refine rowsStripped_map fun row hrow => ?_
    split
    · rename_i hblank
      exact stripped_nil hblank
    · rename_i hshown
      exact (behindMarks_drop
        (le_indent_of_margin? hmargin hrow (eq_false_of_ne_true hshown))).stripped
  · exact List.forall₂_same.mpr fun row _ => .refl row

theorem dedentTail_stripped (rows : List Text) : RowsStripped (dedentTail rows) rows := by
  cases rows with
  | nil => exact .nil
  | cons row rows => exact .cons (.refl row) (dedent_stripped rows)

/-- The end of a text in quotes, and the margin. -/
theorem closed_stripped {quote : Text} (h : quote.all isMark = true) (rows : List Text) :
    RowsStripped (dedentTail (Sequence.mapLast (dropQuoteEnd quote) rows)) rows :=
  (dedentTail_stripped _).trans
    (Sequence.forall₂_mapLast .refl fun row => (beforeMarks_dropQuoteEnd h row).stripped)

theorem cleanDocstring_stripped (rows : List Text) : RowsStripped (cleanDocstring rows) rows := by
  simp only [cleanDocstring]
  split
  · rename_i quote rest h
    have hopen : RowsStripped (Sequence.mapFirst (fun _ => rest) rows) rows :=
      Sequence.forall₂_mapFirst .refl fun row hr => by
        rw [Option.mem_def.mp hr] at h
        exact (behindMarks_of_openDocstring? h).2.stripped
    exact (closed_stripped (behindMarks_of_openDocstring? h).1 _).trans hopen
  · exact closed_stripped (by decide) rows

theorem cleanQuotes_stripped (rows : List Text) : RowsStripped (cleanQuotes rows) rows := by
  have hopen : RowsStripped (Sequence.mapFirst dropOpenQuote rows) rows :=
    Sequence.forall₂_mapFirst .refl fun row _ => (behindMarks_dropOpenQuote row).stripped
  have hclose : RowsStripped (cleanQuotes rows) _ :=
    Sequence.forall₂_mapLast .refl fun row => (beforeMarks_dropQuoteEnd (by decide) row).stripped
  exact hclose.trans hopen

theorem MarkerStyle.clean_stripped (style : MarkerStyle) (rows : List Text) :
    RowsStripped (style.clean rows) rows := by
  cases style with
  | block => exact cleanBlock_stripped rows
  | slashes => exact rowsStripped_map fun row _ => (behindMarks_dropSlashes row).stripped
  | hashes => exact rowsStripped_map fun row _ => (behindMarks_dropHash row).stripped
  | docstring => exact cleanDocstring_stripped rows
  | quotes => exact cleanQuotes_stripped rows

theorem MarkerStyle.clean_within (style : MarkerStyle) (rows : List Text) :
    RowsWithin (style.clean rows) rows :=
  (style.clean_stripped rows).within

/-- The rows stay apart when they are put together again. -/
theorem MarkerStyle.lines_unlines_clean (style : MarkerStyle) (t : Text) :
    (Text.unlines (style.clean t.lines)).lines = style.clean t.lines := by
  have h := style.clean_within t.lines
  have hne : style.clean t.lines ≠ [] := by
    rw [← List.length_pos_iff, h.length_eq]
    exact List.length_pos_iff.mpr t.lines_ne_nil
  exact Text.lines_unlines hne (h.not_mem fun _ => Text.not_mem_of_mem_lines)

theorem lines_clean {language : Language} {t : Text} {style : MarkerStyle}
    (h : MarkerStyle.of? language t = some style) :
    (clean (some language) t).lines = style.clean t.lines := by
  rw [clean, Option.bind_some, h]
  exact style.lines_unlines_clean t

theorem clean_stripped (language : Option Language) (t : Text) :
    RowsStripped (clean language t).lines t.lines := by
  simp only [clean]
  split
  · rename_i style _
    rw [style.lines_unlines_clean]
    exact style.clean_stripped t.lines
  · exact List.forall₂_same.mpr fun row _ => .refl row

theorem clean_within (language : Option Language) (t : Text) :
    RowsWithin (clean language t).lines t.lines :=
  (clean_stripped language t).within

/-- Cleaning keeps the number of rows. Each cleaned row is a stretch of the row at the same
position, which has lost nothing but white space and characters of markers at its ends. -/
theorem clean_keeps_rows (language : Option Language) (t : Text) :
    (clean language t).lines.length = t.lines.length ∧
    List.Forall₂ (fun row line => row <:+: line ∧ Stripped row line)
      (clean language t).lines t.lines := by
  have h := clean_stripped language t
  exact ⟨h.length_eq, h.imp fun row line hrow => ⟨hrow.isInfix, hrow⟩⟩

/-- The opening and the closing marker share a character. -/
example : clean (some .java) "/**/" = [] ∧ clean (some .pharo) "\"" = [] := by decide

end Marginalia.Comment
