import Marginalia.Extraction.Comments
import Marginalia.Proofs.Captures

/-!
The records that captures give: one for each paragraph, in order, and what the rows and the columns
of a record say about the source.
-/

namespace Marginalia

namespace Source

/-- The record of a paragraph of a capture that was recovered at a span. -/
def recordAt (s : Source) (c : Capture) (content : Text) (span : Span) : Record where
  id := 0
  language := s.label
  content := content
  className := c.context.className
  relativePath := []
  level := c.context.level
  tags := []
  rows := span.rows
  columns := span.columns
  commitDate := []

/-- The rows of a capture without its markers. -/
def cleanedRows (s : Source) (c : Capture) : List Text :=
  (Comment.clean s.language? c.text).lines

/-- The places of the paragraphs of a capture among its cleaned rows, from top to bottom. -/
abbrev ParagraphPlaces (s : Source) (c : Capture) (places : List (Nat × Nat)) : Prop :=
  Sequence.RunPlaces (Comment.isBoundary s.language?) (s.cleanedRows c) places

/-- The record of the paragraph at `place` was recovered at row `i` of the cleaned comment, which
begins at row `top` of the source: the first row at which the paragraph seems to stand. -/
structure Recovered (s : Source) (c : Capture) (top : Nat) (place : Nat × Nat) (i : Nat)
    (r : Record) : Prop where
  le : i ≤ place.1
  resembles : Comment.Resembles (s.cleanedRows c) place i
  least : ∀ j < i, ¬ Comment.Resembles (s.cleanedRows c) place j
  inside : ((top + i + (place.2 - place.1) : Nat) : Int) ≤ c.rows.2
  record : ∃ left right, Comment.Points s.lines r.content.lines (top + i) left right ∧
    r = s.recordAt c (Comment.paragraphAt (s.cleanedRows c) place)
      ⟨(↑(top + i), ↑(top + i + (place.2 - place.1))), (↑left, ↑right)⟩

variable {s : Source} {c : Capture}

theorem not_mem_cleanedRows (s : Source) (c : Capture) : ∀ row ∈ s.cleanedRows c, '\n' ∉ row :=
  fun _ => Text.not_mem_of_mem_lines

/-! ## Records of a capture -/

theorem recordOf_eq {cleaned paragraph : Text} {first last : Nat} {columns : Int × Int}
    (h : first ≤ last)
    (hspan : Comment.recoverSpan? c cleaned paragraph s.lines =
      some ⟨(↑first, ↑last), columns⟩) :
    s.recordOf s.lines c cleaned paragraph =
      .ok (s.recordAt c paragraph ⟨(↑first, ↑last), columns⟩) := by
  have hrows : ¬ ((first : Int) < 0 ∨ (last : Int) < first) := by omega
  rw [recordOf, hspan]
  simp only [Record.checkRows, Bool.or_eq_true, decide_eq_true_eq, hrows, if_false]
  rfl

theorem exists_recordsOf {start stop : Nat × Nat} (h : c.StandsAt s start stop) :
    ∃ places records, s.ParagraphPlaces c places ∧ s.recordsOf s.lines c = .ok records ∧
      List.Forall₂ (fun place r => ∃ i, s.Recovered c start.1 place i r) places records := by
  obtain ⟨places, hplaces, hparagraphs⟩ :=
    Comment.exists_paragraphs s.language? (Comment.clean s.language? c.text)
  have hstep : ∀ place ∈ places, ∃ r, (∃ i, s.Recovered c start.1 place i r) ∧
      s.recordOf s.lines c (Comment.clean s.language? c.text)
        (Comment.paragraphAt (s.cleanedRows c) place) = .ok r := by
    rintro ⟨first, last⟩ hplace
    have hrun := (hplaces.mem_iff first last).mp hplace
    have htrim := Comment.map_trim_lines_paragraphAt hrun (s.not_mem_cleanedRows c)
    obtain ⟨i, hi, hres, hleast, -, hlow, left, right, hpoints, hspan⟩ :=
      Comment.recoverSpan?_eq hrun htrim (h.clean_standsFrom s.language?)
    have hinside : stop.1 < s.lines.length := s.length_lines ▸ h.inside
    have hrecord := recordOf_eq (Nat.le_add_right _ _) (hspan c stop.1 h.rows hlow hinside)
    have hend : ((start.1 + i + (last - first) : Nat) : Int) ≤ c.rows.2 := by
      rw [h.rows]
      exact Int.ofNat_le.mpr hlow
    exact ⟨_, ⟨i, hi, hres, hleast, hend, left, right, hpoints, rfl⟩, hrecord⟩
  obtain ⟨records, hrecords⟩ := Sequence.exists_forall₂ hstep
  refine ⟨places, records, hplaces, ?_, hrecords.imp fun _ _ hr => hr.1⟩
  rw [recordsOf, hparagraphs, Sequence.mapM_eq_ok, List.forall₂_map_left_iff]
  exact hrecords.imp fun _ _ hr => hr.2

/-- The records of captures that stand in the source, grouped by capture. -/
theorem exists_buildRecords {captures : List Capture} (h : ∀ c ∈ captures, c.Faithful s) :
    ∃ groups, s.buildRecords captures = .ok groups.flatten ∧
      List.Forall₂ (fun c group => ∃ start stop, c.StandsAt s start stop ∧
        ∃ places, s.ParagraphPlaces c places ∧
          List.Forall₂ (fun place r => ∃ i, s.Recovered c start.1 place i r) places group)
        captures groups := by
  have hstep : ∀ c ∈ captures, ∃ group, (∃ start stop, c.StandsAt s start stop ∧
      ∃ places, s.ParagraphPlaces c places ∧
        List.Forall₂ (fun place r => ∃ i, s.Recovered c start.1 place i r) places group) ∧
      s.recordsOf s.lines c = .ok group := by
    intro c hc
    obtain ⟨start, stop, hstands⟩ := h c hc
    obtain ⟨places, group, hplaces, hgroup, hrecovered⟩ := exists_recordsOf hstands
    exact ⟨group, ⟨start, stop, hstands, places, hplaces, hrecovered⟩, hgroup⟩
  obtain ⟨groups, hgroups⟩ := Sequence.exists_forall₂ hstep
  refine ⟨groups, ?_, hgroups.imp fun _ _ hg => hg.1⟩
  exact Sequence.map_eq_ok.mpr
    ⟨groups, Sequence.mapM_eq_ok.mpr (hgroups.imp fun _ _ hg => hg.2), rfl⟩

theorem content_of_recordOf {lines : List Text} {cleaned paragraph : Text} {r : Record}
    (h : s.recordOf lines c cleaned paragraph = .ok r) : r.content = paragraph := by
  rw [recordOf] at h
  split at h
  · cases h
  · simp only [Record.checkRows] at h
    split at h
    · cases h
    · cases h
      rfl

theorem contents_recordsOf {lines : List Text} {group : List Record}
    (h : s.recordsOf lines c = .ok group) :
    group.map Record.content = Comment.paragraphs s.language? (Comment.clean s.language? c.text) := by
  refine List.forall₂_eq_eq_eq ▸ ?_
  rw [List.forall₂_map_left_iff]
  exact (Sequence.mapM_eq_ok.mp h).flip.imp fun r paragraph hr => content_of_recordOf hr

/-- Whatever the captures, the contents of their records are their paragraphs, in order. -/
theorem contents_buildRecords {captures : List Capture} {records : List Record}
    (h : s.buildRecords captures = .ok records) :
    records.map Record.content = captures.flatMap fun c =>
      Comment.paragraphs s.language? (Comment.clean s.language? c.text) := by
  obtain ⟨groups, hgroups, rfl⟩ := Sequence.map_eq_ok.mp h
  rw [List.map_flatten, List.flatMap_def]
  congr 1
  refine List.forall₂_eq_eq_eq ▸ ?_
  rw [List.forall₂_map_left_iff, List.forall₂_map_right_iff]
  exact (Sequence.mapM_eq_ok.mp hgroups).flip.imp fun group c hgroup => contents_recordsOf hgroup

end Source

/-! ## Where records point -/

/-- The rows and the columns of the record say where its content stands in the source: its rows,
trimmed, one below the other from row `first` on, the first one from the left column on and the last
one up to the right column. -/
structure Record.PointsInto (r : Record) (s : Source) (first left right : Nat) : Prop where
  rows : r.rows = (↑first, ↑(first + r.content.count '\n'))
  columns : r.columns = (↑left, ↑right)
  within : ∀ j row, r.content.lines[j]? = some row →
    ∃ line, s.lines[first + j]? = some line ∧ row.trim <:+: line
  opens : ∃ row line, r.content.lines.head? = some row ∧ s.lines[first]? = some line ∧
    row.trim <+: line.drop left
  closes : ∃ row line, r.content.lines.getLast? = some row ∧
    s.lines[first + r.content.count '\n']? = some line ∧ right ≤ line.length ∧
    row.trim <:+ line.take right
  ascending : r.rows.1 < r.rows.2 ∨ (r.rows.1 = r.rows.2 ∧ r.columns.1 < r.columns.2)

namespace Source

variable {s : Source} {c : Capture}

theorem Recovered.pointsInto {top i : Nat} {place : Nat × Nat} {r : Record}
    (hrun : Sequence.IsRun (Comment.isBoundary s.language?) (s.cleanedRows c) place.1 place.2)
    (h : s.Recovered c top place i r) : ∃ first left right, r.PointsInto s first left right := by
  obtain ⟨left, right, hpoints, hr⟩ := h.record
  have hcontent : r.content = Comment.paragraphAt (s.cleanedRows c) place := by rw [hr]; rfl
  have hlength : r.content.lines.length = place.2 + 1 - place.1 := by
    rw [hcontent]
    exact Comment.length_paragraph hrun
      (Comment.map_trim_lines_paragraphAt hrun (s.not_mem_cleanedRows c))
  have hord := hrun.ordered
  have hcount : r.content.count '\n' + 1 = place.2 + 1 - place.1 := by
    rw [← Text.length_lines, hlength]
  have hrows : r.rows = (↑(top + i), ↑(top + i + r.content.count '\n')) := by
    rw [show r.content.count '\n' = place.2 - place.1 by omega, hr]
    rfl
  have hcolumns : r.columns = (↑left, ↑right) := by rw [hr]; rfl
  obtain ⟨head, opening, hhead, hopening, hleft⟩ := hpoints.opens
  obtain ⟨final, closing, column, hfinal, hclosing, hcolumn, hright⟩ := hpoints.closes
  have hlast : r.content.lines.length - 1 = r.content.count '\n' := by
    rw [Text.length_lines]
    rfl
  rw [hlast] at hclosing
  obtain ⟨-, hprefix⟩ := Sequence.indexOf?_eq_some hleft
  obtain ⟨hin, rest, hrest⟩ := Sequence.indexOf?_eq_some hcolumn
  refine ⟨top + i, left, right, hrows, hcolumns, fun j row hj => (hpoints.within j row hj).2,
    ⟨head, opening, hhead, hopening, hprefix⟩, ⟨final, closing, hfinal, hclosing, ?_, ?_⟩, ?_⟩
  · have hl := congrArg List.length hrest
    rw [List.length_append, List.length_drop] at hl
    omega
  · refine ⟨closing.take column, ?_⟩
    calc closing.take column ++ final.trim
        = (closing.take column ++ (final.trim ++ rest)).take right := by
          rw [← List.append_assoc, List.take_left' ]
          rw [List.length_append, List.length_take_of_le hin, hright]
      _ = closing.take right := by rw [hrest, List.take_append_drop]
  · rw [hrows, hcolumns]
    rcases Nat.eq_zero_or_pos (r.content.count '\n') with hzero | hpos
    · -- On a single row, the first row of the content is also its last one.
      obtain ⟨row, hrow⟩ : ∃ row, r.content.lines = [row] :=
        List.length_eq_one_iff.mp (by rw [Text.length_lines, hzero])
      obtain ⟨hne, -⟩ := hpoints.within 0 row (by rw [hrow]; rfl)
      rw [hrow] at hhead hfinal
      cases hhead
      cases hfinal
      rw [hzero, Nat.add_zero, hopening] at hclosing
      cases hclosing
      have hsame : left = column := Option.some.inj (hleft.symm.trans hcolumn)
      have hlong := List.length_pos_iff.mpr hne
      right
      constructor
      · rw [hzero, Nat.add_zero]
      · rw [hright, hsame]
        exact Int.ofNat_lt.mpr (Nat.lt_add_of_pos_right hlong)
    · left
      change ((top + i : Nat) : Int) < ((top + i + r.content.count '\n' : Nat) : Int)
      omega

/-- The records of captures that stand in their source are made, one for each paragraph, and say
where their contents stand; so are and do those of the comments that a text shows by itself. -/
theorem exists_buildRecords_pointsInto (s : Source) :
    (∀ captures : List Capture, (∀ c ∈ captures, c.Faithful s) →
      ∃ records, s.buildRecords captures = .ok records ∧
        (records.map Record.content = captures.flatMap fun c =>
          Comment.paragraphs s.language? (Comment.clean s.language? c.text)) ∧
        ∀ r ∈ records, ∃ first left right, r.PointsInto s first left right) ∧
    ∃ records, s.recordsByTokens = .ok records ∧
      ∀ r ∈ records, ∃ first left right, r.PointsInto s first left right := by
  have hbuild : ∀ captures : List Capture, (∀ c ∈ captures, c.Faithful s) →
      ∃ records, s.buildRecords captures = .ok records ∧
        ∀ r ∈ records, ∃ first left right, r.PointsInto s first left right := by
    intro captures hcaptures
    obtain ⟨groups, hgroups, hrecovered⟩ := exists_buildRecords hcaptures
    refine ⟨groups.flatten, hgroups, fun r hr => ?_⟩
    obtain ⟨group, hgroup, hr⟩ := List.mem_flatten.mp hr
    obtain ⟨c, -, start, stop, -, places, hplaces, hmade⟩ := Sequence.of_mem_right hrecovered hgroup
    obtain ⟨place, hplace, i, hi⟩ := Sequence.of_mem_right hmade hr
    exact hi.pointsInto ((hplaces.mem_iff place.1 place.2).mp hplace)
  constructor
  · intro captures hcaptures
    obtain ⟨records, hrecords, hpoints⟩ := hbuild captures hcaptures
    exact ⟨records, hrecords, contents_buildRecords hrecords, hpoints⟩
  · exact hbuild _ fun c => Comment.faithful_of_mem_tokenCaptures

/-- A comment that begins in the middle of a row, with two paragraphs and a row of a marker only. -/
def javadoc : Source where
  path := "A.java"
  label := "java"
  text := "int a; /** one\n *  two\n *\n * two */\n"

def javadocCapture : Capture where
  kind := .block
  text := "/** one\n *  two\n *\n * two */"
  offsets := (7, 35)
  rows := (0, 3)
  columns := (7, 9)
  context := .unknown

theorem exists_buildRecords_pointsInto_javadoc :
    (∀ c ∈ [javadocCapture], c.Faithful javadoc) ∧
    ∃ records, javadoc.buildRecords [javadocCapture] = .ok records ∧
      (records.map Record.content = [javadocCapture].flatMap fun c =>
        Comment.paragraphs javadoc.language? (Comment.clean javadoc.language? c.text)) ∧
      ∀ r ∈ records, ∃ first left right, r.PointsInto javadoc first left right := by
  have hfaithful : ∀ c ∈ [javadocCapture], c.Faithful javadoc := by
    intro c hc
    rw [List.mem_singleton.mp hc]
    exact ⟨(0, 7), (3, 9), rfl, rfl, by decide, by decide, .inl (by decide)⟩
  exact ⟨hfaithful, (exists_buildRecords_pointsInto javadoc).1 _ hfaithful⟩

end Source

end Marginalia
