import Marginalia.Proofs.Validity

/-!
Records of captures that need not stand in their source. Rows past the end of the source, rows in
the wrong order and texts that are not there all give valid records with rows of the source; only a
last row above the source does not.
-/

namespace Marginalia

/-! ## Rows of spans -/

/-- However the paragraph is found, both rows are cut off at the last row of the capture and of the
source, and the last row is not above the first one. -/
theorem Comment.rows_of_recoverSpan? {c : Capture} {cleaned p : Text} {source : List Text}
    {span : Span} (h : recoverSpan? c cleaned p source = some span) :
    ∃ first last : Nat,
      span.rows.1 = min (c.rows.1 + first) (min c.rows.2 (source.length - 1 : Nat)) ∧
      span.rows.2 =
        max (min (c.rows.1 + last) (min c.rows.2 (source.length - 1 : Nat))) span.rows.1 := by
  obtain ⟨opening, -, h⟩ := Option.bind_eq_some_iff.mp h
  obtain ⟨closing, -, h⟩ := Option.bind_eq_some_iff.mp h
  cases h
  exact ⟨_, _, rfl, rfl⟩

namespace Record

/-- The record is valid and new, and lies in the source; it also lies in the capture, if the capture
has its rows in the source. -/
structure FitsIn (r : Record) (c : Capture) (s : Source) : Prop where
  wellFormed : r.WellFormed
  id : r.id = 0
  tags : r.tags = []
  inSource : r.rows.2 < s.lineCount
  inCapture : c.rows.1 ≤ c.rows.2 → c.rows.2 < s.lineCount →
    c.rows.1 ≤ r.rows.1 ∧ r.rows.2 ≤ c.rows.2

end Record

namespace Source

variable {s : Source} {c : Capture} {captures : List Capture}

/-- The paragraphs of a capture, from top to bottom. -/
def paragraphsOf (s : Source) (c : Capture) : List Text :=
  Comment.paragraphs s.language? (Comment.clean s.language? c.text)

theorem fitsIn_of_recordOf {p : Text} {r : Record} (hp : p ∈ s.paragraphsOf c)
    (h : s.recordOf s.lines c (Comment.clean s.language? c.text) p = .ok r) : r.FitsIn c s := by
  obtain ⟨span, hspan, hnonneg, hle, rfl⟩ := recordOf_eq_ok_iff.mp h
  obtain ⟨first, last, hfirst, hlast⟩ := Comment.rows_of_recoverSpan? hspan
  obtain ⟨htrim, hne⟩ := Comment.trimmed_of_mem_paragraphs hp
  have hlines := s.length_lines
  rw [hlines] at hfirst hlast
  have hpos : 0 < s.lineCount := Nat.succ_pos _
  refine ⟨⟨htrim, hne, fun _ htag => absurd htag List.not_mem_nil, hnonneg, hle⟩, rfl, rfl, ?_, ?_⟩
  · change span.rows.2 < _
    omega
  · intro hordered hinside
    change c.rows.1 ≤ span.rows.1 ∧ span.rows.2 ≤ c.rows.2
    omega

/-- A paragraph gives a record unless the capture ends above the source. -/
theorem exists_recordOf_iff (htop : 0 ≤ c.rows.1) (p : Text) :
    (∃ r, s.recordOf s.lines c (Comment.clean s.language? c.text) p = .ok r) ↔ 0 ≤ c.rows.2 := by
  constructor
  · rintro ⟨r, hr⟩
    obtain ⟨span, hspan, hnonneg, -⟩ := recordOf_eq_ok_iff.mp hr
    obtain ⟨first, last, hfirst, -⟩ := Comment.rows_of_recoverSpan? hspan
    omega
  · intro hlow
    obtain ⟨span, hspan, hnonneg, hle⟩ := Comment.exists_recoverSpan?_of_nonneg htop hlow
      (Comment.clean s.language? c.text) p s.lines
    exact ⟨_, recordOf_eq_ok_iff.mpr ⟨span, hspan, hnonneg, hle, rfl⟩⟩

theorem exists_recordsOf_iff (htop : 0 ≤ c.rows.1) :
    (∃ group, s.recordsOf s.lines c = .ok group) ↔ (s.paragraphsOf c ≠ [] → 0 ≤ c.rows.2) := by
  rw [recordsOf, Sequence.exists_mapM_ok_iff]
  simp only [exists_recordOf_iff htop]
  rw [← paragraphsOf]
  constructor
  · intro h hne
    obtain ⟨p, hp⟩ := List.exists_mem_of_ne_nil _ hne
    exact h p hp
  · exact fun h p hp => h (List.ne_nil_of_mem hp)

/-- Captures that begin in or below the source give records just if none that has a paragraph ends
above the source. The records are those of the paragraphs, in order; all are valid and lie in the
source, and in their capture if it has its rows there. -/
theorem exists_buildRecords_iff (s : Source) {captures : List Capture}
    (h : ∀ c ∈ captures, 0 ≤ c.rows.1) :
    ((∃ records, s.buildRecords captures = .ok records) ↔
      ∀ c ∈ captures, s.paragraphsOf c ≠ [] → 0 ≤ c.rows.2) ∧
    ∀ records, s.buildRecords captures = .ok records →
      ∃ groups, records = groups.flatten ∧
        List.Forall₂ (fun c group => group.map Record.content = s.paragraphsOf c ∧
          ∀ r ∈ group, r.FitsIn c s) captures groups := by
  constructor
  · have hall : (∃ groups, captures.mapM (s.recordsOf s.lines) = .ok groups) ↔
        ∀ c ∈ captures, s.paragraphsOf c ≠ [] → 0 ≤ c.rows.2 := by
      rw [Sequence.exists_mapM_ok_iff]
      exact forall₂_congr fun c hc => exists_recordsOf_iff (h c hc)
    rw [← hall]
    simp [buildRecords, Sequence.map_eq_ok]
  · intro records hbuilt
    obtain ⟨groups, hgroups, rfl⟩ := Sequence.map_eq_ok.mp hbuilt
    refine ⟨groups, rfl, (Sequence.mapM_eq_ok.mp hgroups).imp fun c group hgroup => ?_⟩
    refine ⟨contents_recordsOf hgroup, fun r hr => ?_⟩
    obtain ⟨p, hp, hrecord⟩ := Sequence.of_mem_right (Sequence.mapM_eq_ok.mp hgroup) hr
    exact fitsIn_of_recordOf hp hrecord

/-- Two rows, the second one without text. -/
def brief : Source where
  path := "a.py"
  label := "python"
  text := "# a\n"

/-- A comment of the source whose rows, as told, are others. -/
def strayCapture (rows : Int × Int) (text : Text) : Capture where
  kind := .line
  text := text
  offsets := (0, 3)
  rows := rows
  columns := (0, 3)
  context := .unknown

/-- Past the end, in the wrong order, in the source without standing there, and above the source
without text. -/
def strayCaptures : List Capture :=
  [strayCapture (5, 9) "# a", strayCapture (1, 0) "# a", strayCapture (0, 1) "# b\n\n\n# c",
    strayCapture (0, -1) "#"]

theorem exists_buildRecords_iff_stray :
    (∀ c ∈ strayCaptures, 0 ≤ c.rows.1) ∧
    ∃ groups : List (List Record), brief.buildRecords strayCaptures = .ok groups.flatten ∧
      List.Forall₂ (fun c group => group.map Record.content = brief.paragraphsOf c ∧
        ∀ r ∈ group, r.FitsIn c brief) strayCaptures groups := by
  have htop : ∀ c ∈ strayCaptures, 0 ≤ c.rows.1 := by decide
  obtain ⟨hbuilt, hfits⟩ := exists_buildRecords_iff brief htop
  obtain ⟨records, hrecords⟩ := hbuilt.mpr (by decide)
  obtain ⟨groups, rfl, hgroups⟩ := hfits records hrecords
  exact ⟨htop, groups, hrecords, hgroups⟩

/-- The capture begins in the source and ends above it, and its record is refused. -/
theorem stray_refused :
    0 ≤ (strayCapture (0, -1) "# a").rows.1 ∧
    ∃ issues, brief.buildRecords [strayCapture (0, -1) "# a"] = .error (.invalid issues) :=
  ⟨by decide, _, rfl⟩

end Source

end Marginalia
