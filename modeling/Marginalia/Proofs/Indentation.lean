import Marginalia.Proofs.Alignment
import Marginalia.Proofs.Cleaning

/-!
Texts that are moved to the right, and what the moved rows are without the markers: those of a
docstring lose the common margin, those of a block comment what stands in front of a star.
-/

namespace Marginalia

namespace Sequence

variable {α : Type}

/-- A mark at the end of a list does not begin in front of it, among other items. -/
theorem suffix_append_iff {mark xs ys : List α} (hxs : ∀ x ∈ xs, x ∉ mark) :
    mark <:+ xs ++ ys ↔ mark <:+ ys := by
  constructor
  · intro h
    rcases Nat.le_total mark.length ys.length with hle | hle
    · exact List.suffix_of_suffix_length_le h (List.suffix_append xs ys) hle
    · obtain ⟨front, rfl⟩ := List.suffix_of_suffix_length_le (List.suffix_append xs ys) h hle
      obtain ⟨before, hbefore⟩ := h
      rw [← List.append_assoc] at hbefore
      have hfront : before ++ front = xs := List.append_cancel_right hbefore
      cases front with
      | nil => exact List.suffix_rfl
      | cons c front => exact absurd (by simp) (hxs c (by simp [← hfront]))
  · exact fun h => h.trans (List.suffix_append xs ys)

theorem dropEndWhile_append {p : α → Bool} {xs : List α} (h : ∀ x ∈ xs, p x = false)
    (ys : List α) : dropEndWhile p (xs ++ ys) = xs ++ dropEndWhile p ys := by
  have hkept : xs.reverse.dropWhile p = xs.reverse := by
    cases hxs : xs.reverse with
    | nil => rfl
    | cons x rest =>
        have hx : x ∈ xs := List.mem_reverse.mp (hxs ▸ List.mem_cons_self)
        exact List.dropWhile_cons_of_neg (by simp [h x hx])
  rw [dropEndWhile, List.reverse_append, List.dropWhile_append, hkept]
  split
  · rename_i hempty
    rw [dropEndWhile, List.isEmpty_iff.mp hempty, List.reverse_reverse, List.reverse_nil,
      List.append_nil]
  · rw [List.reverse_append, List.reverse_reverse, dropEndWhile]

end Sequence

/-! ## Texts moved to the right -/

namespace Text

/-- White space within a row. -/
structure IsIndent (w : Text) : Prop where
  blank : w.allBlank = true
  line : '\n' ∉ w

def moveRight (w row : Text) : Text := if row.allBlank then row else w ++ row

/-- The text with all rows but the first one and the blank ones moved to the right. -/
def reindent (w t : Text) : Text := unlines (Sequence.mapRest (moveRight w) t.lines)

/-- A row and the same row moved to the right, or two blank rows. -/
inductive Indented (w : Text) : Text → Text → Prop where
  | blank {row row' : Text} : row.allBlank = true → row'.allBlank = true → Indented w row row'
  | text {row : Text} : row.allBlank = false → Indented w row (w ++ row)

variable {w t row row' : Text}

theorem newline_not_mem_moveRight (hw : '\n' ∉ w) (hrow : '\n' ∉ row) : '\n' ∉ moveRight w row := by
  rw [moveRight]
  split
  · exact hrow
  · exact fun hmem => (List.mem_append.mp hmem).elim hw hrow

theorem lines_reindent (hw : w.IsIndent) (t : Text) :
    (reindent w t).lines = Sequence.mapRest (moveRight w) t.lines := by
  apply lines_unlines
  · obtain ⟨first, rest, ht⟩ := List.exists_cons_of_ne_nil t.lines_ne_nil
    rw [ht]
    exact List.cons_ne_nil _ _
  · have hmoved : ∀ row ∈ t.lines, '\n' ∉ moveRight w row := fun _ hrow =>
      newline_not_mem_moveRight hw.line (not_mem_of_mem_lines hrow)
    have hself : ∀ row ∈ t.lines, '\n' ∉ row := fun _ => not_mem_of_mem_lines
    intro row hrow
    cases ht : t.lines with
    | nil => exact absurd ht t.lines_ne_nil
    | cons first rest =>
        rw [ht] at hrow hmoved hself
        rcases List.mem_cons.mp hrow with rfl | hrow
        · exact hself _ List.mem_cons_self
        · obtain ⟨own, hown, rfl⟩ := List.mem_map.mp hrow
          exact hmoved own (List.mem_cons_of_mem first hown)

theorem allBlank_append_left (h : row.allBlank = false) : allBlank (w ++ row) = false := by
  rw [allBlank_append, h, Bool.and_false]

theorem indented_append (hw : w.allBlank = true) (row : Text) : Indented w row (w ++ row) := by
  cases hrow : row.allBlank with
  | true => exact .blank hrow (by rw [allBlank_append, hw, hrow]; rfl)
  | false => exact .text hrow

theorem indented_moveRight (w row : Text) : Indented w row (moveRight w row) := by
  rw [moveRight]
  split
  · rename_i hrow
    exact .blank hrow hrow
  · rename_i hrow
    exact .text (eq_false_of_ne_true hrow)

theorem Indented.trimStart_eq (hw : w.allBlank = true) (h : Indented w row row') :
    row.trimStart = row'.trimStart := by
  cases h with
  | blank hrow hrow' => rw [trimStart_eq_nil_iff.mpr hrow, trimStart_eq_nil_iff.mpr hrow']
  | text hrow => exact (trimStart_of_allBlank_append hw row).symm

theorem exists_lines_reindent (hw : w.IsIndent) (t : Text) :
    ∃ first rest rest', t.lines = first :: rest ∧ (reindent w t).lines = first :: rest' ∧
      List.Forall₂ (Indented w) rest rest' := by
  obtain ⟨first, rest, ht⟩ := List.exists_cons_of_ne_nil t.lines_ne_nil
  refine ⟨first, rest, rest.map (moveRight w), ht, by rw [lines_reindent hw, ht]; rfl, ?_⟩
  exact List.forall₂_map_right_iff.mpr
    (List.forall₂_same.mpr fun row _ => indented_moveRight w row)

theorem aligned_reindent (hw : w.IsIndent) (t : Text) : Aligned t.lines (reindent w t).lines := by
  obtain ⟨first, rest, rest', ht, ht', hrest⟩ := exists_lines_reindent hw t
  rw [ht, ht']
  exact .cons rfl (hrest.imp fun _ _ hrow => hrow.trimStart_eq hw.blank)

/-- Where the rows of a text are moved to does not matter for what stands first in it. -/
theorem prefix_trimStart_unlines_iff {mark : Text} {rows rows' : List Text}
    (hmark : mark.any isBlank = false) (h : Aligned rows rows') :
    mark <+: (unlines rows).trimStart ↔ mark <+: (unlines rows').trimStart := by
  have hline : '\n' ∉ mark := fun hm => List.any_eq_false.mp hmark '\n' hm rfl
  induction h with
  | nil => rfl
  | @cons row row' rows rows' hrow hrest ih =>
      cases hrest with
      | nil => simpa [unlines] using by rw [hrow]
      | cons =>
          rw [unlines_cons (List.cons_ne_nil _ _), unlines_cons (List.cons_ne_nil _ _)]
          have hblank : row'.allBlank = row.allBlank := by
            rw [← allBlank_trimStart, ← hrow, allBlank_trimStart]
          cases hb : row.allBlank with
          | false =>
              rw [trimStart_append hb, trimStart_append (hblank.trans hb), hrow,
                Sequence.prefix_append_cons_iff hline, Sequence.prefix_append_cons_iff hline]
          | true =>
              rw [trimStart_of_allBlank_append hb, trimStart_of_allBlank_append (hblank.trans hb)]
              exact ih

end Text

namespace Comment

open Text (Aligned Indented)

variable {language : Language} {w row row' mark body : Text}

theorem of?_eq_of_aligned {t t' : Text} (h : Aligned t.lines t'.lines) (language : Language) :
    MarkerStyle.of? language t = MarkerStyle.of? language t' := by
  have hbegins (mark : Text) (hmark : mark.any Text.isBlank = false) :
      mark.isPrefixOf t.trimStart = mark.isPrefixOf t'.trimStart := by
    have hiff := Text.prefix_trimStart_unlines_iff hmark h
    rw [Text.unlines_lines, Text.unlines_lines] at hiff
    rw [Bool.eq_iff_iff, List.isPrefixOf_iff_prefix, List.isPrefixOf_iff_prefix, hiff]
  cases language with
  | java =>
      simp only [MarkerStyle.of?]
      rw [hbegins "/*" (by decide), hbegins "//" (by decide)]
  | python =>
      simp only [MarkerStyle.of?]
      rw [hbegins "#" (by decide)]
  | pharo => rfl

/-! ## Closing markers -/

theorem dropQuoteEnd_of_closed (h : row.trimEnd = body ++ mark) : dropQuoteEnd mark row = body := by
  rw [dropQuoteEnd, h, if_pos (List.isSuffixOf_iff_suffix.mpr (List.suffix_append body mark)),
    List.length_append, Nat.add_sub_cancel, List.take_left]

theorem dropQuoteEnd_of_open (h : ¬ mark <:+ row.trimEnd) : dropQuoteEnd mark row = row := by
  rw [dropQuoteEnd, if_neg (mt List.isSuffixOf_iff_suffix.mp h)]

theorem dropBlockClose_of_closed (h : row.trimEnd = body ++ ['*', '/']) :
    dropBlockClose row = Text.trimEnd (Sequence.dropEndWhile (· == '*') body) := by
  rw [dropBlockClose, h, List.reverse_append, Text.trimEnd, Sequence.dropEndWhile,
    Sequence.dropEndWhile, List.reverse_reverse]
  rfl

theorem dropBlockClose_of_open (h : ¬ ['*', '/'] <:+ row.trimEnd) : dropBlockClose row = row := by
  rw [dropBlockClose]
  split
  · rename_i rest hrest
    refine absurd ⟨rest.reverse, ?_⟩ h
    rw [← List.reverse_reverse row.trimEnd, hrest]
    simp
  · rfl

/-- Taking a closing marker off a row and moving it to the right go together. -/
theorem indented_closed {f g : Text → Text} (hw : w.allBlank = true) (hne : mark ≠ [])
    (hmark : mark.any Text.isBlank = false)
    (hopen : ∀ row, ¬ mark <:+ row.trimEnd → f row = row)
    (hclosed : ∀ row body, row.trimEnd = body ++ mark → f row = g body)
    (hg : ∀ body, Indented w (g body) (g (w ++ body))) (h : Indented w row row') :
    Indented w (f row) (f row') := by
  cases h with
  | blank hrow hrow' =>
      have hself {row : Text} (hrow : row.allBlank = true) : f row = row := by
        apply hopen
        rw [Text.trimEnd_eq_nil_iff.mpr hrow, List.suffix_nil]
        exact hne
      rw [hself hrow, hself hrow']
      exact .blank hrow hrow'
  | text hrow =>
      have hfront : ∀ c ∈ w, c ∉ mark := fun c hc hm =>
        List.any_eq_false.mp hmark c hm (Text.allBlank_iff.mp hw c hc)
      by_cases hend : mark <:+ row.trimEnd
      · obtain ⟨body, hbody⟩ := hend
        rw [hclosed row body hbody.symm, hclosed (w ++ row) (w ++ body)]
        · exact hg body
        · rw [Text.trimEnd_append hrow, ← hbody, List.append_assoc]
      · rw [hopen row hend, hopen (w ++ row)]
        · exact .text hrow
        · rwa [Text.trimEnd_append hrow, Sequence.suffix_append_iff hfront]

theorem indented_dropQuoteEnd (hw : w.allBlank = true) (hquote : mark ∈ docstringQuotes)
    (h : Indented w row row') : Indented w (dropQuoteEnd mark row) (dropQuoteEnd mark row') := by
  have hquotes : ∀ q ∈ docstringQuotes, q ≠ [] ∧ q.any Text.isBlank = false := by decide
  obtain ⟨hne, hmark⟩ := hquotes mark hquote
  exact indented_closed hw hne hmark (fun _ => dropQuoteEnd_of_open)
    (fun _ _ => dropQuoteEnd_of_closed) (Text.indented_append hw) h

theorem indented_dropBlockClose (hw : w.allBlank = true) (h : Indented w row row') :
    Indented w (dropBlockClose row) (dropBlockClose row') := by
  refine indented_closed hw (List.cons_ne_nil _ _) (by decide) (fun _ => dropBlockClose_of_open)
    (fun _ _ => dropBlockClose_of_closed) (fun body => ?_) h
  have hstars : ∀ c ∈ w, (c == '*') = false := fun c hc => by
    rw [beq_eq_false_iff_ne]
    rintro rfl
    exact Bool.noConfusion (Text.allBlank_iff.mp hw '*' hc)
  rw [Sequence.dropEndWhile_append hstars]
  cases hbody : Text.allBlank (Sequence.dropEndWhile (· == '*') body) with
  | true =>
      rw [Text.trimEnd_eq_nil_iff.mpr hbody, Text.trimEnd_eq_nil_iff.mpr]
      · exact .blank rfl rfl
      · rw [Text.allBlank_append, hw, hbody]
        rfl
  | false =>
      rw [Text.trimEnd_append hbody]
      exact .text (by rw [Text.allBlank_trimEnd, hbody])

/-! ## Margins -/

theorem map_indent_eq {rows rows' : List Text} (hw : w.allBlank = true)
    (h : List.Forall₂ (Indented w) rows rows') :
    (rows'.filter fun r => !r.allBlank).map Text.indent =
      ((rows.filter fun r => !r.allBlank).map Text.indent).map (w.length + ·) := by
  induction h with
  | nil => rfl
  | @cons row _ _ _ hrow _ ih =>
      cases hrow with
      | blank hrow hrow' =>
          rw [List.filter_cons_of_neg (by simp [hrow']), List.filter_cons_of_neg (by simp [hrow]), ih]
      | text hrow =>
          rw [List.filter_cons_of_pos (by simp [Text.allBlank_append_left hrow]),
            List.filter_cons_of_pos (by simp [hrow]),
            List.map_cons, List.map_cons, List.map_cons, ih, Text.indent, Text.indent,
            List.takeWhile_append_of_pos (Text.allBlank_iff.mp hw), List.length_append]

theorem min?_map_add (n : Nat) (ns : List Nat) : (ns.map (n + ·)).min? = ns.min?.map (n + ·) := by
  cases hmin : ns.min? with
  | none => rw [List.min?_eq_none_iff.mp hmin]; rfl
  | some m =>
      obtain ⟨hm, hle⟩ := List.min?_eq_some_iff.mp hmin
      refine List.min?_eq_some_iff.mpr ⟨List.mem_map_of_mem hm, fun k hk => ?_⟩
      obtain ⟨own, hown, rfl⟩ := List.mem_map.mp hk
      exact Nat.add_le_add_left (hle own hown) n

/-- The margin grows with the rows. -/
theorem margin?_of_indented {rows rows' : List Text} (hw : w.allBlank = true)
    (h : List.Forall₂ (Indented w) rows rows') :
    margin? rows' = (margin? rows).map (w.length + ·) := by
  rw [margin?, map_indent_eq hw h, min?_map_add, margin?]

/-- Two rows that are the same, or both blank. -/
def SameText (row row' : Text) : Prop := row = row' ∨ row.allBlank = true ∧ row'.allBlank = true

theorem SameText.trimStart_eq (h : SameText row row') : row.trimStart = row'.trimStart := by
  rcases h with rfl | ⟨hrow, hrow'⟩
  · rfl
  · rw [Text.trimStart_eq_nil_iff.mpr hrow, Text.trimStart_eq_nil_iff.mpr hrow']

theorem sameText_dedent {rows rows' : List Text} (hw : w.allBlank = true)
    (h : List.Forall₂ (Indented w) rows rows') :
    List.Forall₂ SameText (dedent rows) (dedent rows') := by
  rw [dedent, dedent, margin?_of_indented hw h]
  cases hn : margin? rows with
  | none =>
      have hblank : ∀ row ∈ rows, row.allBlank = true := by
        rw [margin?, List.min?_eq_none_iff, List.map_eq_nil_iff, List.filter_eq_nil_iff] at hn
        simpa using hn
      refine ((List.forall₂_and_left rows rows').mpr ⟨hblank, h⟩).imp fun row row' hrow => ?_
      obtain ⟨hrow, hmoved⟩ := hrow
      cases hmoved with
      | blank _ hrow' => exact .inr ⟨hrow, hrow'⟩
      | text hrow' => exact absurd (hrow.symm.trans hrow') (by decide)
  | some n =>
      rw [List.forall₂_map_left_iff, Option.map_some, List.forall₂_map_right_iff]
      refine h.imp fun row row' hrow => ?_
      cases hrow with
      | blank hrow hrow' => exact .inl (by rw [if_pos hrow, if_pos hrow'])
      | text hrow =>
          rw [if_neg (by simp [hrow]), if_neg (by simp [Text.allBlank_append_left hrow]),
            List.drop_length_add_append]
          exact .inl rfl

/-! ## Stars -/

/-- Behind white space the row begins with a star that does not close the comment. -/
def BeginsWithStar (row : Text) : Prop :=
  row.trimStart.head? = some '*' ∧ row.trimStart.tail.head? ≠ some '/'

instance : DecidablePred BeginsWithStar := fun _ => inferInstanceAs (Decidable (_ ∧ _))

theorem beginsWithStar_iff : BeginsWithStar row ↔
    ∃ rest, row.trimStart = '*' :: rest ∧ rest.head? ≠ some '/' := by
  rw [BeginsWithStar]
  cases row.trimStart with
  | nil => simp
  | cons c rest => simp

theorem dropBlockStar_of_star {rest : Text} (h : row.trimStart = '*' :: rest)
    (hslash : rest.head? ≠ some '/') : dropBlockStar row = Text.dropBlank rest := by
  rw [dropBlockStar, h]
  split
  · rename_i after heq
    cases heq
    exact absurd rfl hslash
  · rename_i after _ heq
    cases heq
    rfl
  · rename_i hnone
    exact absurd rfl (hnone rest)

theorem dropBlockStar_of_not (h : ¬ BeginsWithStar row) : dropBlockStar row = row := by
  rw [dropBlockStar]
  split
  · rfl
  · rename_i rest hslash hrow
    refine absurd (beginsWithStar_iff.mpr ⟨rest, hrow, fun hhead => ?_⟩) h
    obtain ⟨after, rfl⟩ := List.head?_eq_some_iff.mp hhead
    exact hslash after rfl
  · rfl

/-- A star at the beginning takes all that was in front of it along. -/
theorem dropBlockStar_indented (hw : w.allBlank = true) (h : Indented w row row') :
    (dropBlockStar row).trimStart = (dropBlockStar row').trimStart ∧
      ((dropBlockStar row).allBlank = false →
        (dropBlockStar row = dropBlockStar row' ↔ w = [] ∨ BeginsWithStar row)) := by
  have hstart := h.trimStart_eq hw
  by_cases hstar : BeginsWithStar row
  · obtain ⟨rest, hrow, hslash⟩ := beginsWithStar_iff.mp hstar
    have hsame : dropBlockStar row = dropBlockStar row' := by
      rw [dropBlockStar_of_star hrow hslash, dropBlockStar_of_star (hstart ▸ hrow) hslash]
    exact ⟨by rw [hsame], fun _ => iff_of_true hsame (.inr hstar)⟩
  · have hstar' : ¬ BeginsWithStar row' := by rwa [BeginsWithStar, ← hstart]
    rw [dropBlockStar_of_not hstar, dropBlockStar_of_not hstar']
    refine ⟨hstart, fun hblank => ?_⟩
    cases h with
    | blank hrow => exact absurd (hrow.symm.trans hblank) (by decide)
    | text =>
        rw [List.self_eq_append_left]
        exact (or_iff_left hstar).symm

/-- The closing marker does not matter for a row of which something is left. -/
theorem beginsWithStar_dropBlockClose_iff
    (h : (dropBlockStar (dropBlockClose row)).allBlank = false) :
    BeginsWithStar (dropBlockClose row) ↔ BeginsWithStar row := by
  obtain ⟨behind, hrow⟩ := dropBlockClose_isPrefix row
  generalize dropBlockClose row = own at h hrow
  have hown : own.allBlank = false := by
    by_contra hblank
    rw [Bool.not_eq_false] at hblank
    have hstar : ¬ BeginsWithStar own := by
      rw [BeginsWithStar, Text.trimStart_eq_nil_iff.mpr hblank]
      decide
    rw [dropBlockStar_of_not hstar, hblank] at h
    cases h
  rw [BeginsWithStar, BeginsWithStar, ← hrow, Text.trimStart_append hown]
  obtain ⟨c, rest, hstart⟩ : ∃ c rest, own.trimStart = c :: rest := by
    apply List.exists_cons_of_ne_nil
    rw [Ne, Text.trimStart_eq_nil_iff, hown]
    decide
  rw [hstart]
  cases rest with
  | nil =>
      -- A star alone would leave nothing.
      have hc : c ≠ '*' := by
        rintro rfl
        rw [dropBlockStar_of_star hstart (by simp)] at h
        cases h
      simp [hc]
  | cons next rest => simp

end Comment

end Marginalia
