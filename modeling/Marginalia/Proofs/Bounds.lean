import Marginalia.Proofs.Records
import Mathlib.Data.List.Infix

/-!
The bounds of records beside those of their captures. The rows of a comment stand in front of its
end, so the search for a column ends there at the latest; it may end too early, since it starts at
the beginning of the row and not at the beginning of the comment.
-/

namespace Marginalia

/-! ## First places -/

namespace Sequence

variable {α : Type} [BEq α] [LawfulBEq α] {pat xs : List α} {i : Nat}

/-- A stretch of the first `n` items is first found where it ends among them. -/
theorem add_length_le_of_indexOf? {n : Nat} (h : indexOf? pat xs = some i)
    (hin : pat <:+: xs.take n) : i + pat.length ≤ n := by
  obtain ⟨front, back, he⟩ := hin
  have hlen : front.length + pat.length ≤ n := by
    have hl := congrArg List.length he
    rw [List.length_append, List.length_append, List.length_take] at hl
    omega
  have hat : pat <+: xs.drop front.length := by
    have hdrop : (xs.take n).drop front.length = pat ++ back := by
      rw [← he, List.append_assoc, List.drop_left]
    have hcut : (xs.take n).drop front.length <+: xs.drop front.length :=
      List.IsPrefix.drop (List.take_prefix n xs) front.length
    exact (List.prefix_append pat back).trans (hdrop ▸ hcut)
  exact Nat.le_trans (Nat.add_le_add_right (le_of_indexOf? h hat) _) hlen

end Sequence

theorem Sequence.slice_modify {α : Type} {xs : List α} {first last : Nat} (h : first ≤ last)
    (hin : last < xs.length) (f : α → α) :
    slice (xs.modify last f) first (last + 1) = mapLast f (slice xs first (last + 1)) := by
  have hlen : (xs.take last).length = last := List.length_take_of_le hin.le
  have htake : (xs.modify last f).take (last + 1) = mapLast f (xs.take (last + 1)) := by
    rw [List.modify_eq_take_cons_drop hin, ← List.take_append_getElem hin, mapLast_concat,
      List.take_append, hlen, List.take_of_length_le (by omega), Nat.add_sub_cancel_left]
    rfl
  rw [slice, slice, htake, drop_mapLast]
  rw [List.length_take]
  omega

/-! ## The source in front of the end of a capture -/

namespace Capture.StandsAt

variable {s : Source} {c : Capture} {start stop : Nat × Nat}

/-- The rows of a capture stand in the source, the last one in front of the end of the capture. -/
theorem standsFrom_take (h : c.StandsAt s start stop) :
    Comment.StandsFrom (s.lines.modify stop.1 (List.take stop.2)) c.text.lines start.1 stop.1 := by
  have hin : stop.1 < s.lines.length := s.length_lines ▸ h.inside
  have hcut : Comment.StandsFrom (s.lines.modify stop.1 (List.take stop.2))
      (Text.cut s.lines start stop).lines start.1 stop.1 := by
    apply (Comment.standsFrom_between _ start.1 stop.1).within
    rw [Text.lines_cut h.ordered hin fun row => Text.not_mem_of_mem_lines, Sequence.between,
      Sequence.slice_modify h.ordered hin]
    exact .mapFirst fun row _ => (List.drop_suffix start.2 row).isInfix
  rcases h.text with ht | ht
  · rw [ht]
    exact hcut
  · rw [ht, Text.lines_append_newline]
    exact hcut.concat_nil

end Capture.StandsAt

namespace Record

/-- The record does not begin in front of the capture. -/
def BeginsIn (r : Record) (c : Capture) : Prop :=
  c.rows.1 < r.rows.1 ∨ (c.rows.1 = r.rows.1 ∧ c.columns.1 ≤ r.columns.1)

/-- The record does not end behind the capture. -/
def EndsIn (r : Record) (c : Capture) : Prop :=
  r.rows.2 < c.rows.2 ∨ (r.rows.2 = c.rows.2 ∧ r.columns.2 ≤ c.columns.2)

/-- The record is in the first row of the capture, and the first row of its content stands there in
front of the capture. -/
def StandsBefore (r : Record) (c : Capture) (s : Source) : Prop :=
  r.rows.1 = c.rows.1 ∧ ∃ row line column, r.content.lines.head? = some row ∧
    s.lines[c.rows.1.toNat]? = some line ∧ ((column : Nat) : Int) < c.columns.1 ∧
    row.trim <+: line.drop column

end Record

namespace Source

variable {s : Source} {c : Capture} {start stop : Nat × Nat} {place : Nat × Nat} {i : Nat}
  {r : Record}

/-- A row is first found in the source as early as it stands in it. -/
theorem Recovered.beginsIn_iff (hstands : c.StandsAt s start stop)
    (h : s.Recovered c start.1 place i r) : r.BeginsIn c ↔ ¬ r.StandsBefore c s := by
  obtain ⟨left, right, hpoints, hr⟩ := h.record
  obtain ⟨row, line, hrow, hline, hleft⟩ := hpoints.opens
  have hrows : r.rows.1 = ((start.1 + i : Nat) : Int) := by rw [hr]; rfl
  have hcolumns : r.columns.1 = left := by rw [hr]; rfl
  have htop : c.rows.1 = start.1 := by rw [hstands.rows]
  have hat : c.columns.1 = start.2 := by rw [hstands.columns]
  rw [Record.BeginsIn, Record.StandsBefore, hrows, hcolumns, htop, hat, Int.toNat_natCast]
  rcases Nat.eq_zero_or_pos i with rfl | hpos
  · rw [Nat.add_zero] at hline ⊢
    obtain ⟨-, hprefix⟩ := Sequence.indexOf?_eq_some hleft
    constructor
    · rintro hbegins ⟨-, row', line', column, hrow', hline', hbefore, hprefix'⟩
      cases hrow.symm.trans hrow'
      cases hline.symm.trans hline'
      have hle := Sequence.le_of_indexOf? hleft hprefix'
      omega
    · intro hnot
      right
      refine ⟨rfl, Int.not_lt.mp fun hlt => hnot ⟨rfl, row, line, left, hrow, hline, hlt, hprefix⟩⟩
  · constructor
    · rintro - ⟨heq, -⟩
      omega
    · intro _
      left
      omega

/-- The last row of a paragraph stands in front of the end of the capture. -/
theorem Recovered.endsIn (hstands : c.StandsAt s start stop)
    (hrun : Sequence.IsRun (Comment.isBoundary s.language?) (s.cleanedRows c) place.1 place.2)
    (h : s.Recovered c start.1 place i r) : r.EndsIn c := by
  obtain ⟨left, right, hpoints, hr⟩ := h.record
  have hcontent : r.content = Comment.paragraphAt (s.cleanedRows c) place := by rw [hr]; rfl
  have hrows : r.rows.2 = ((start.1 + i + (place.2 - place.1) : Nat) : Int) := by rw [hr]; rfl
  have hcolumns : r.columns.2 = right := by rw [hr]; rfl
  have hlow : c.rows.2 = stop.1 := by rw [hstands.rows]
  have hend : c.columns.2 = stop.2 := by rw [hstands.columns]
  have hinside := h.inside
  rw [hlow] at hinside
  rw [Record.EndsIn, hrows, hcolumns, hlow, hend]
  rcases Nat.lt_or_eq_of_le (Int.ofNat_le.mp hinside) with hlt | hlast
  · exact .inl (Int.ofNat_lt.mpr hlt)
  · right
    refine ⟨by rw [hlast], ?_⟩
    have htrim := Comment.map_trim_lines_paragraphAt hrun (s.not_mem_cleanedRows c)
    have hlength := Comment.length_paragraph hrun htrim
    have hord := hrun.ordered
    obtain ⟨row, line, column, hrow, hline, hcolumn, hright⟩ := hpoints.closes
    rw [hcontent] at hrow hline
    rw [hlength, show place.2 + 1 - place.1 - 1 = place.2 - place.1 by omega, hlast] at hline
    rw [List.getLast?_eq_getElem?, hlength] at hrow
    -- The same row stands in the source whose last row is cut off at the end of the capture.
    obtain ⟨-, -, line', hline', hin⟩ := Comment.standsFrom_of_resembles htrim
      (fun row => Comment.allBlank_of_mem_paragraph hrun htrim) h.resembles
      (hstands.standsFrom_take.within (Comment.clean_within s.language? c.text)) hrow
    rw [show start.1 + i + (place.2 + 1 - place.1 - 1) = stop.1 by omega,
      List.getElem?_modify_eq, hline] at hline'
    cases hline'
    rw [hright]
    exact Int.ofNat_le.mpr (Sequence.add_length_le_of_indexOf? hcolumn hin)

/-- No record of a capture that stands in the source ends behind the capture. A record begins in
front of it exactly if its first row of content can be found there on the same row. -/
theorem exists_buildRecords_bounds (s : Source) {captures : List Capture}
    (h : ∀ c ∈ captures, c.Faithful s) :
    ∃ groups, s.buildRecords captures = .ok groups.flatten ∧
      List.Forall₂ (fun c group => ∀ r ∈ group,
        r.EndsIn c ∧ (r.BeginsIn c ↔ ¬ r.StandsBefore c s)) captures groups := by
  obtain ⟨groups, hgroups, hrecovered⟩ := exists_buildRecords h
  refine ⟨groups, hgroups, hrecovered.imp ?_⟩
  rintro c group ⟨start, stop, hstands, places, hplaces, hmade⟩ r hr
  obtain ⟨⟨first, last⟩, hplace, i, hi⟩ := Sequence.of_mem_right hmade hr
  exact ⟨hi.endsIn hstands ((hplaces.mem_iff first last).mp hplace), hi.beginsIn_iff hstands⟩

/-- A comment of two paragraphs behind code that holds the second one, and one behind code that
does not hold it. -/
def trailing : Source where
  path := "A.java"
  label := "java"
  text := "int b; /* a\n\n b */ // c"

def trailingBlock : Capture where
  kind := .block
  text := "/* a\n\n b */"
  offsets := (7, 18)
  rows := (0, 2)
  columns := (7, 5)
  context := .unknown

def trailingLine : Capture where
  kind := .line
  text := "// c"
  offsets := (19, 23)
  rows := (2, 2)
  columns := (6, 10)
  context := .unknown

theorem exists_buildRecords_bounds_trailing :
    (∀ c ∈ [trailingBlock, trailingLine], c.Faithful trailing) ∧
    ∃ groups, trailing.buildRecords [trailingBlock, trailingLine] = .ok groups.flatten ∧
      List.Forall₂ (fun c group => ∀ r ∈ group,
        r.EndsIn c ∧ (r.BeginsIn c ↔ ¬ r.StandsBefore c trailing))
        [trailingBlock, trailingLine] groups := by
  have hfaithful : ∀ c ∈ [trailingBlock, trailingLine], c.Faithful trailing := by
    simp only [List.forall_mem_cons]
    refine ⟨⟨(0, 7), (2, 5), rfl, rfl, by decide, by decide, .inl (by decide)⟩,
      ⟨(2, 6), (2, 10), rfl, rfl, by decide, by decide, .inl (by decide)⟩, ?_⟩
    intro c hc
    cases hc
  exact ⟨hfaithful, exists_buildRecords_bounds trailing hfaithful⟩

/-- The comment repeats the name in front of it. -/
def declared : Source where
  path := "A.java"
  label := "java"
  text := "int a; // a"

def declaredCapture : Capture where
  kind := .line
  text := "// a"
  offsets := (7, 11)
  rows := (0, 0)
  columns := (7, 11)
  context := .unknown

set_option maxRecDepth 10000 in
/-- The record of the comment covers the name in the code. -/
theorem declared_columns :
    Comment.tokenCaptures declared = [declaredCapture] ∧
    declaredCapture.StandsAt declared (0, 7) (0, 11) ∧
    (declared.buildRecords [declaredCapture]).toOption.map
      (·.map fun r => (r.rows, r.columns)) = some [((0, 0), (4, 5))] := by
  refine ⟨by decide, ⟨rfl, rfl, by decide, by decide, .inl (by decide)⟩, by decide⟩

end Source

end Marginalia
