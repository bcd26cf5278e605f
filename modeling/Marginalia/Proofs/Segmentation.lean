import Marginalia.Proofs.Paragraphs

/-!
Paragraphs against the rows they are made of: one for each maximal run of rows that are no boundary,
with as many rows, of which only the outer white space is lost. A paragraph is its own only
paragraph.
-/

namespace Marginalia

namespace Sequence

variable {α : Type} {p : α → Bool}

theorem runs_append_sep {sep : α} (h : p sep = true) (xs rest : List α) :
    runs p (xs ++ sep :: rest) = runs p xs ++ runs p rest := by
  rw [runs, splitWhen_append_cons h, List.filter_append, runs, runs]

theorem runs_of_forall {xs : List α} (hne : xs ≠ []) (h : ∀ x ∈ xs, p x = false) :
    runs p xs = [xs] := by
  rw [runs, splitWhen_eq_splitOnP, List.splitOnP_eq_singleton h, List.filter_cons_of_pos (by simpa),
    List.filter_nil]

end Sequence

namespace Comment

variable {language : Option Language}

/-! ## Boundaries -/

/-- White space at the ends of a row does not make it a boundary, nor keep it from being one. -/
theorem isBoundary_eq_of_trim_eq {row row' : Text} (h : row.trim = row'.trim) :
    isBoundary language row = isBoundary language row' := by
  have hblank : row.allBlank = row'.allBlank := by
    rw [Bool.eq_iff_iff, ← Text.trim_eq_nil_iff, ← Text.trim_eq_nil_iff, h]
  rw [isBoundary, isBoundary, hblank, isTagRow, isTagRow, h]

/-! ## Rows gone through once -/

/-- The paragraph that the pending rows make, unless there are none or nothing is left of them. -/
def flushed (pending : List Text) : List Text :=
  if pending.isEmpty then []
  else
    let paragraph := (Text.unlines pending).trim
    if paragraph.isEmpty then [] else [paragraph]

/-- The paragraphs of the pending rows and those to come. The pending rows are given out at every
boundary and at the end. -/
def collect (language : Option Language) (pending : List Text) : List Text → List Text
  | [] => flushed pending
  | row :: rows =>
    if isBoundary language row then flushed pending ++ collect language [] rows
    else collect language (pending ++ [row]) rows

/-- Of rows that are no boundary something is always left. -/
theorem trim_unlines_ne_nil {rows : List Text} (hne : rows ≠ [])
    (h : ∀ row ∈ rows, isBoundary language row = false) : (Text.unlines rows).trim ≠ [] := by
  obtain ⟨front, last, rfl⟩ := (List.eq_nil_or_concat' rows).resolve_left hne
  apply Text.trim_ne_nil
  exact Text.allBlank_unlines_concat (allBlank_of_isBoundary_eq_false (h last (by simp))) front

theorem flushed_eq {pending : List Text} (h : ∀ row ∈ pending, isBoundary language row = false) :
    flushed pending =
      (Sequence.runs (isBoundary language) pending).map fun rows => (Text.unlines rows).trim := by
  by_cases hne : pending = []
  · subst hne
    rfl
  · have hleft := trim_unlines_ne_nil hne h
    rw [Sequence.runs_of_forall hne h, flushed, if_neg (by simpa using hne)]
    exact if_neg (by simpa using hleft)

theorem collect_eq {pending : List Text} (h : ∀ row ∈ pending, isBoundary language row = false)
    (rows : List Text) : collect language pending rows =
      (Sequence.runs (isBoundary language) (pending ++ rows)).map
        fun rows => (Text.unlines rows).trim := by
  induction rows generalizing pending with
  | nil => rw [collect, List.append_nil, flushed_eq h]
  | cons row rows ih =>
      rw [collect]
      split
      · rename_i hrow
        rw [Sequence.runs_append_sep hrow, List.map_append, flushed_eq h, ih (by simp),
          List.nil_append]
      · rename_i hrow
        rw [ih, List.append_assoc, List.singleton_append]
        intro own hown
        rcases List.mem_append.mp hown with hown | hown
        · exact h own hown
        · rw [List.mem_singleton.mp hown]
          exact eq_false_of_ne_true hrow

/-! ## A paragraph again -/

theorem paragraphs_unlines {rows : List Text} (hne : rows ≠ []) (hline : ∀ row ∈ rows, '\n' ∉ row)
    (h : ∀ row ∈ rows, isBoundary language row = false) :
    paragraphs language (Text.unlines rows) = [(Text.unlines rows).trim] := by
  rw [paragraphs, Text.lines_unlines hne hline, Sequence.runs_of_forall hne h]
  rfl

theorem isBoundary_of_mem_lines_paragraphAt {rows : List Text} {first last : Nat}
    (h : Sequence.IsRun (isBoundary language) rows first last) (hrows : ∀ row ∈ rows, '\n' ∉ row)
    {row : Text} (hrow : row ∈ (paragraphAt rows (first, last)).lines) :
    isBoundary language row = false := by
  have htrim := List.mem_map_of_mem (f := Text.trim) hrow
  rw [map_trim_lines_paragraphAt h hrows] at htrim
  obtain ⟨own, hown, hsame⟩ := List.mem_map.mp htrim
  rw [← isBoundary_eq_of_trim_eq hsame]
  exact h.of_mem_between hown

theorem paragraphs_paragraphAt {rows : List Text} {first last : Nat}
    (h : Sequence.IsRun (isBoundary language) rows first last)
    (hrows : ∀ row ∈ rows, '\n' ∉ row) :
    paragraphs language (paragraphAt rows (first, last)) = [paragraphAt rows (first, last)] := by
  have hagain := paragraphs_unlines (Text.lines_ne_nil (paragraphAt rows (first, last)))
    (fun _ => Text.not_mem_of_mem_lines) fun _ => isBoundary_of_mem_lines_paragraphAt h hrows
  rwa [Text.unlines_lines, paragraphAt, Text.trim_trim] at hagain

/-! ## Runs and paragraphs -/

/-- The paragraph has the rows, but for the white space in front of the first one and behind the
last one. -/
structure MadeOf (rows : List Text) (paragraph : Text) : Prop where
  text : paragraph = (Text.unlines rows).trim
  length : paragraph.lines.length = rows.length
  lines : paragraph.lines =
    Sequence.mapLast Text.trimEnd (Sequence.mapFirst Text.trimStart rows)

theorem madeOf_paragraphAt {rows : List Text} {first last : Nat}
    (h : Sequence.IsRun (isBoundary language) rows first last)
    (hrows : ∀ row ∈ rows, '\n' ∉ row) :
    MadeOf (Sequence.between rows (first, last)) (paragraphAt rows (first, last)) := by
  have hlines := lines_paragraphAt h hrows
  refine ⟨rfl, ?_, hlines⟩
  rw [hlines, Sequence.length_mapLast, Sequence.length_mapFirst]

/-- There is one paragraph for each maximal run of rows that are no boundary, in the order of the
runs, with the rows of its run. Each is its own only paragraph. The same comes out when the rows are
gone through once and what nothing is left of is not given out. -/
theorem paragraphs_exact (language : Option Language) (cleaned : Text) :
    (∃ places, Sequence.RunPlaces (isBoundary language) cleaned.lines places ∧
      List.Forall₂ (fun place => MadeOf (Sequence.between cleaned.lines place)) places
        (paragraphs language cleaned)) ∧
    (∀ paragraph ∈ paragraphs language cleaned, paragraphs language paragraph = [paragraph]) ∧
    collect language [] cleaned.lines = paragraphs language cleaned := by
  obtain ⟨places, hplaces, hparagraphs⟩ := exists_paragraphs language cleaned
  have hline : ∀ row ∈ cleaned.lines, '\n' ∉ row := fun _ => Text.not_mem_of_mem_lines
  refine ⟨⟨places, hplaces, ?_⟩, fun paragraph hparagraph => ?_, ?_⟩
  · rw [hparagraphs, List.forall₂_map_right_iff, List.forall₂_same]
    intro place hplace
    exact madeOf_paragraphAt ((hplaces.mem_iff place.1 place.2).mp hplace) hline
  · rw [hparagraphs] at hparagraph
    obtain ⟨place, hplace, rfl⟩ := List.mem_map.mp hparagraph
    exact paragraphs_paragraphAt ((hplaces.mem_iff place.1 place.2).mp hplace) hline
  · exact collect_eq (List.forall_mem_nil _) cleaned.lines

/-- A row of a tag stands between two paragraphs, and one below the second. -/
def tagged : Text := "\n a b\n\n<p>\n\tc\n  d \n</p>"

theorem paragraphs_exact_tagged :
    ("c\n  d" : Text) ∈ paragraphs (some .java) tagged ∧
    paragraphs (some .java) "c\n  d" = [("c\n  d" : Text)] := by
  have hmem : ("c\n  d" : Text) ∈ paragraphs (some .java) tagged := by decide
  exact ⟨hmem, (paragraphs_exact (some .java) tagged).2.1 _ hmem⟩

end Comment

end Marginalia
