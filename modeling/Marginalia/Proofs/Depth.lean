import Marginalia.Proofs.Indentation
import Marginalia.Proofs.Reconciliation
import Marginalia.Proofs.Records

/-!
Comments that are moved to another depth with the code around them. A docstring keeps its contents.
A block comment keeps them exactly if every row that carries a paragraph on begins with a star: the
others keep their indentation, and it is part of the paragraph.
-/

namespace Marginalia

namespace Comment

open Text (Aligned Indented IsIndent reindent)

variable {w row : Text} {tail tail' : List Text}

/-! ## Docstrings -/

/-- The opening quote of a docstring decides how the other rows are cleaned. -/
theorem exists_cleanDocstring_cons (row : Text) :
    ∃ first, ∃ quote ∈ docstringQuotes, ∀ tail, tail ≠ [] →
      cleanDocstring (row :: tail) =
        first :: dedent (Sequence.mapLast (dropQuoteEnd quote) tail) := by
  cases hopen : openDocstring? row with
  | none =>
      refine ⟨row, "\"\"\"", by decide, fun tail htail => ?_⟩
      obtain ⟨next, rest, rfl⟩ := List.exists_cons_of_ne_nil htail
      simp only [cleanDocstring, List.head?_cons, Option.getD_some, hopen]
      rfl
  | some opened =>
      obtain ⟨quote, body⟩ := opened
      have hquote : quote ∈ docstringQuotes := by
        rw [openDocstring?] at hopen
        split at hopen
        · obtain ⟨q, hq, heq⟩ := Option.map_eq_some_iff.mp hopen
          cases heq
          exact List.mem_of_find?_eq_some hq
        · cases hopen
      refine ⟨body, quote, hquote, fun tail htail => ?_⟩
      obtain ⟨next, rest, rfl⟩ := List.exists_cons_of_ne_nil htail
      simp only [cleanDocstring, List.head?_cons, Option.getD_some, hopen]
      rfl

theorem sameText_cleanDocstring (hw : w.allBlank = true)
    (h : List.Forall₂ (Indented w) tail tail') :
    List.Forall₂ SameText (cleanDocstring (row :: tail)) (cleanDocstring (row :: tail')) := by
  cases h with
  | nil => exact List.forall₂_same.mpr fun _ _ => .inl rfl
  | cons hrow hrest =>
      obtain ⟨first, quote, hquote, hclean⟩ := exists_cleanDocstring_cons row
      rw [hclean _ (List.cons_ne_nil _ _), hclean _ (List.cons_ne_nil _ _)]
      refine .cons (.inl rfl) (sameText_dedent hw ?_)
      exact Sequence.forall₂_mapLast_mapLast
        (fun _ _ => indented_dropQuoteEnd hw hquote) (.cons hrow hrest)

/-- Blank rows are in no paragraph. -/
theorem paragraphs_eq_of_sameText {language : Option Language} {cleaned cleaned' : Text}
    (h : List.Forall₂ SameText cleaned.lines cleaned'.lines) :
    paragraphs language cleaned = paragraphs language cleaned' := by
  have haligned : Aligned cleaned.lines cleaned'.lines := h.imp fun _ _ => SameText.trimStart_eq
  refine (paragraphs_eq_iff_of_aligned haligned).mpr fun first last hrun i hfirst hlast => ?_
  have hi : i < cleaned.lines.length := hlast.trans_lt hrun.inside
  have hown := List.getElem?_eq_getElem hi
  obtain ⟨row, hrow, hsame⟩ := Sequence.getElem?_of_forall₂ h hown
  have hshown : (cleaned.lines[i]).allBlank = false :=
    allBlank_of_isBoundary_eq_false (hrun.unbroken i _ hfirst.le hlast hown)
  rcases hsame with heq | ⟨hblank, -⟩
  · rw [hown, hrow, heq]
  · exact absurd (hblank.symm.trans hshown) (by decide)

/-! ## Block comments -/

theorem aligned_cleanBlock (hw : w.allBlank = true) (h : List.Forall₂ (Indented w) tail tail') :
    Aligned (cleanBlock (row :: tail)) (cleanBlock (row :: tail')) := by
  cases h with
  | nil => exact List.forall₂_same.mpr fun _ _ => rfl
  | cons hrow hrest =>
      rw [cleanBlock_cons row (List.cons_ne_nil _ _), cleanBlock_cons row (List.cons_ne_nil _ _)]
      refine .cons rfl (List.forall₂_map_left_iff.mpr (List.forall₂_map_right_iff.mpr ?_))
      have hclosed := Sequence.forall₂_mapLast_mapLast
        (fun _ _ => indented_dropBlockClose hw) (.cons hrow hrest)
      exact hclosed.imp fun _ _ hmoved => (dropBlockStar_indented hw hmoved).1

theorem getElem?_cleanBlock_eq_iff (hw : w.allBlank = true)
    (h : List.Forall₂ (Indented w) tail tail') {first own : Text} {i : Nat}
    (hrow : tail[i]? = some row) (hown : (cleanBlock (first :: tail))[i + 1]? = some own)
    (hshown : own.allBlank = false) :
    (cleanBlock (first :: tail))[i + 1]? = (cleanBlock (first :: tail'))[i + 1]? ↔
      w = [] ∨ BeginsWithStar row := by
  have hne : tail ≠ [] := by
    rintro rfl
    cases hrow
  have hne' : tail' ≠ [] := by
    rintro rfl
    exact hne (List.forall₂_nil_right_iff.mp h)
  rw [cleanBlock_cons first hne, List.getElem?_cons_succ, List.getElem?_map] at hown
  obtain ⟨closed, hclosed, rfl⟩ := Option.map_eq_some_iff.mp hown
  obtain ⟨closed', hclosed', hmoved⟩ := Sequence.getElem?_of_forall₂
    (Sequence.forall₂_mapLast_mapLast (fun _ _ => indented_dropBlockClose hw) h) hclosed
  have hstar : BeginsWithStar closed ↔ BeginsWithStar row := by
    have hlast : List.Forall₂ (fun own row => own = row ∨ own = dropBlockClose row)
        (Sequence.mapLast dropBlockClose tail) tail :=
      Sequence.forall₂_mapLast (fun _ => .inl rfl) (fun _ => .inr rfl)
    obtain ⟨row', hrow', rfl | rfl⟩ := Sequence.getElem?_of_forall₂ hlast hclosed
    · cases hrow.symm.trans hrow'
      rfl
    · cases hrow.symm.trans hrow'
      exact beginsWithStar_dropBlockClose_iff hshown
  rw [cleanBlock_cons first hne, cleanBlock_cons first hne', List.getElem?_cons_succ,
    List.getElem?_cons_succ, List.getElem?_map, List.getElem?_map, hclosed, hclosed',
    Option.map_some, Option.map_some, Option.some.injEq,
    (dropBlockStar_indented hw hmoved).2 hshown, hstar]

/-! ## Contents -/

/-- The paragraphs of a comment without its markers. -/
def contents (language : Language) (t : Text) : List Text :=
  paragraphs (some language) (clean (some language) t)

/-- In each paragraph of the block comment all rows but the first one begin with a star. -/
def CarriedByStars (t : Text) : Prop :=
  ∀ first last,
    Sequence.IsRun (isBoundary (some .java)) (clean (some .java) t).lines first last →
      ∀ i, first < i → i ≤ last → ∀ row, t.lines[i]? = some row → BeginsWithStar row

theorem carriedByStars_of_forall {t : Text} (h : ∀ row ∈ t.lines.tail, BeginsWithStar row) :
    CarriedByStars t := by
  intro first last _ i hfirst _ row hrow
  obtain ⟨j, rfl⟩ := Nat.exists_eq_succ_of_ne_zero (Nat.ne_zero_of_lt hfirst)
  exact h row (List.mem_of_getElem? (List.getElem?_tail.trans hrow))

/-- A docstring or a block comment that keeps its contents at any depth, and the same one at another
depth. -/
inductive AtDepth : Language → Text → Text → Prop where
  | same {language : Language} {t : Text} : AtDepth language t t
  | docstring {w t : Text} : w.IsIndent → MarkerStyle.of? .python t = some .docstring →
      AtDepth .python t (reindent w t)
  | block {w t : Text} : w.IsIndent → MarkerStyle.of? .java t = some .block → CarriedByStars t →
      AtDepth .java t (reindent w t)
  | symm {language : Language} {t t' : Text} : AtDepth language t t' → AtDepth language t' t

/-- Cleaned in the style of the text, the text and the moved one differ in the moved rows. -/
theorem exists_lines_clean_reindent {language : Language} {style : MarkerStyle} {t : Text}
    (hw : w.IsIndent) (h : MarkerStyle.of? language t = some style) :
    ∃ first rest rest', t.lines = first :: rest ∧
      (clean (some language) t).lines = style.clean (first :: rest) ∧
      (clean (some language) (reindent w t)).lines = style.clean (first :: rest') ∧
      List.Forall₂ (Indented w) rest rest' := by
  have h' := (of?_eq_of_aligned (Text.aligned_reindent hw t) language).symm.trans h
  obtain ⟨first, rest, rest', ht, ht', hrest⟩ := Text.exists_lines_reindent hw t
  refine ⟨first, rest, rest', ht, ?_, ?_, hrest⟩
  · rw [lines_clean h, ht]
  · rw [lines_clean h', ht']

theorem contents_reindent_docstring (hw : w.IsIndent) {t : Text}
    (h : MarkerStyle.of? .python t = some .docstring) :
    contents .python (reindent w t) = contents .python t := by
  obtain ⟨first, rest, rest', -, hlines, hlines', hrest⟩ := exists_lines_clean_reindent hw h
  refine (paragraphs_eq_of_sameText ?_).symm
  rw [hlines, hlines']
  exact sameText_cleanDocstring hw.blank hrest

theorem getElem?_clean_reindent_eq_iff (hw : w.IsIndent) {t : Text}
    (h : MarkerStyle.of? .java t = some .block) {first last i : Nat}
    (hrun : Sequence.IsRun (isBoundary (some .java)) (clean (some .java) t).lines first last)
    (hfirst : first < i) (hlast : i ≤ last) :
    (clean (some .java) t).lines[i]? = (clean (some .java) (reindent w t)).lines[i]? ↔
      w = [] ∨ ∀ row, t.lines[i]? = some row → BeginsWithStar row := by
  obtain ⟨own, hown⟩ : ∃ own, (clean (some .java) t).lines[i]? = some own :=
    ⟨_, List.getElem?_eq_getElem (hlast.trans_lt hrun.inside)⟩
  have hshown := allBlank_of_isBoundary_eq_false (hrun.unbroken i own hfirst.le hlast hown)
  obtain ⟨opening, rest, rest', ht, hlines, hlines', hrest⟩ := exists_lines_clean_reindent hw h
  obtain ⟨j, rfl⟩ := Nat.exists_eq_succ_of_ne_zero (Nat.ne_zero_of_lt hfirst)
  rw [hlines] at hown
  obtain ⟨row, hrow, -⟩ := Sequence.getElem?_of_forall₂ (cleanBlock_within _) hown
  rw [hlines, hlines', ht, hrow, MarkerStyle.clean,
    getElem?_cleanBlock_eq_iff hw.blank hrest hrow hown hshown]
  simp

theorem contents_reindent_block_iff (hw : w.IsIndent) {t : Text}
    (h : MarkerStyle.of? .java t = some .block) :
    contents .java (reindent w t) = contents .java t ↔ w = [] ∨ CarriedByStars t := by
  have haligned :
      Aligned (clean (some .java) t).lines (clean (some .java) (reindent w t)).lines := by
    obtain ⟨first, rest, rest', -, hlines, hlines', hrest⟩ := exists_lines_clean_reindent hw h
    rw [hlines, hlines']
    exact aligned_cleanBlock hw.blank hrest
  rw [eq_comm, contents, contents, paragraphs_eq_iff_of_aligned haligned]
  constructor
  · intro hsame
    by_cases hempty : w = []
    · exact .inl hempty
    · refine .inr fun first last hrun i hfirst hlast => ?_
      have hrow := getElem?_clean_reindent_eq_iff hw h hrun hfirst hlast
      exact (hrow.mp (hsame first last hrun i hfirst hlast)).resolve_left hempty
  · intro hstars first last hrun i hfirst hlast
    exact (getElem?_clean_reindent_eq_iff hw h hrun hfirst hlast).mpr
      (hstars.imp_right fun hstars => hstars first last hrun i hfirst hlast)

theorem AtDepth.contents_eq {language : Language} {t t' : Text} (h : AtDepth language t t') :
    contents language t' = contents language t := by
  induction h with
  | same => rfl
  | docstring hw h => exact contents_reindent_docstring hw h
  | block hw h hstars => exact (contents_reindent_block_iff hw h).mpr (.inr hstars)
  | symm _ ih => exact ih.symm

end Comment

/-! ## Records -/

namespace Source

open Comment (AtDepth CarriedByStars contents)
open Text (IsIndent reindent)

theorem contents_at_depth {s s' : Source} {language : Language}
    (hs : s.language? = some language) (hs' : s'.language? = some language)
    {captures captures' : List Capture}
    (h : List.Forall₂ (fun c c' => AtDepth language c.text c'.text) captures captures')
    {records records' : List Record} (hrecords : s.buildRecords captures = .ok records)
    (hrecords' : s'.buildRecords captures' = .ok records') :
    records'.map Record.content = records.map Record.content := by
  rw [contents_buildRecords hrecords, contents_buildRecords hrecords', hs, hs']
  clear hrecords hrecords'
  induction h with
  | nil => rfl
  | cons hc _ ih => exact congrArg₂ (· ++ ·) hc.contents_eq ih

/-- A docstring that is moved to the right keeps its contents. A block comment keeps them exactly if
it is not moved at all or every row that carries a paragraph on begins with a star. So nothing in
such comments is classified again when they are moved to another depth. -/
theorem reindent_keeps_contents :
    (∀ w t : Text, w.IsIndent → Comment.MarkerStyle.of? .python t = some .docstring →
      contents .python (reindent w t) = contents .python t) ∧
    (∀ w t : Text, w.IsIndent → Comment.MarkerStyle.of? .java t = some .block →
      (contents .java (reindent w t) = contents .java t ↔ w = [] ∨ CarriedByStars t)) ∧
    ∀ (language : Language) (s s' : Source) (captures captures' : List Capture)
      (records records' previous : List Record),
      s.language? = some language → s'.language? = some language →
      List.Forall₂ (fun c c' => AtDepth language c.text c'.text) captures captures' →
      s.buildRecords captures = .ok records → s'.buildRecords captures' = .ok records' →
      records.map Record.content ⊆ previous.map Record.content →
      (Reconciliation.separate previous records').toReclassify = [] := by
  refine ⟨fun _ _ hw h => Comment.contents_reindent_docstring hw h,
    fun _ _ hw h => Comment.contents_reindent_block_iff hw h, ?_⟩
  intro language s s' captures captures' records records' previous hs hs' h hrecords hrecords' hknown
  rw [Reconciliation.toReclassify_eq_nil_iff]
  intro r hr
  apply hknown
  rw [← contents_at_depth hs hs' h hrecords hrecords']
  exact List.mem_map_of_mem hr

/-- A method with a comment, and the same one in a class. -/
def outer : Source := ⟨"A.java", "java", "/* a\n * b */\nvoid f() {}"⟩

def inner : Source := ⟨"A.java", "java", "  /* a\n   * b */\n  void f() {}"⟩

def outerCapture : Capture := ⟨.block, "/* a\n * b */", (0, 12), (0, 1), (0, 7), .unknown⟩

def innerCapture : Capture :=
  ⟨.block, "/* a\n   * b */", (2, 16), (0, 1), (2, 9), .unknown⟩

def quoted : Text := "\"\"\"\n  a\n    b\n\"\"\""

theorem isIndent_blanks : IsIndent "  " := ⟨by decide, by decide⟩

set_option maxRecDepth 10000 in
theorem reindent_keeps_contents_inner :
    (Comment.MarkerStyle.of? .python quoted = some .docstring ∧
      contents .python (reindent "  " quoted) = contents .python quoted) ∧
    (CarriedByStars outerCapture.text ∧
      contents .java (reindent "  " outerCapture.text) = contents .java outerCapture.text) ∧
    AtDepth .java outerCapture.text innerCapture.text ∧
    ∃ records records', outer.buildRecords [outerCapture] = .ok records ∧
      inner.buildRecords [innerCapture] = .ok records' ∧
      (Reconciliation.separate records records').toReclassify = [] := by
  obtain ⟨hquoted, hblock, hdepth⟩ := reindent_keeps_contents
  have hdocstring : Comment.MarkerStyle.of? .python quoted = some .docstring := by decide
  have hstars : CarriedByStars outerCapture.text := Comment.carriedByStars_of_forall (by decide)
  have hat : AtDepth .java outerCapture.text innerCapture.text := by
    have hmoved : innerCapture.text = reindent "  " outerCapture.text := by decide
    rw [hmoved]
    exact .block isIndent_blanks (by decide) hstars
  obtain ⟨records, hrecords⟩ : ∃ records, outer.buildRecords [outerCapture] = .ok records :=
    ⟨_, rfl⟩
  obtain ⟨records', hrecords'⟩ : ∃ records, inner.buildRecords [innerCapture] = .ok records :=
    ⟨_, rfl⟩
  refine ⟨⟨hdocstring, hquoted _ _ isIndent_blanks hdocstring⟩,
    ⟨hstars, (hblock _ _ isIndent_blanks (by decide)).mpr (.inr hstars)⟩, hat, records, records',
    hrecords, hrecords', ?_⟩
  exact hdepth .java outer inner [outerCapture] [innerCapture] records records' records rfl rfl
    (.cons hat .nil) hrecords hrecords' (List.Subset.refl _)

/-- A row without a star keeps its indentation. -/
theorem reindent_changes_contents :
    IsIndent "  " ∧ Comment.MarkerStyle.of? .java "/* a\nb */" = some .block ∧
    contents .java "/* a\nb */" = [("a\nb" : Text)] ∧
    contents .java (reindent "  " "/* a\nb */") = [("a\n  b" : Text)] :=
  ⟨isIndent_blanks, by decide, by decide, by decide⟩

end Source

end Marginalia
