import Marginalia.Proofs.Records

/-!
The rows of records beside the rows of the paragraphs that they come from. A paragraph is looked for
from the top of its comment, so the two agree when nothing above the paragraph resembles it.
-/

namespace Marginalia.Source

variable {s : Source}

/-- Nothing above the paragraph at `place` resembles it. -/
def SeenFirst (rows : List Text) (place : Nat × Nat) : Prop :=
  ∀ i < place.1, ¬ Comment.Resembles rows place i

instance (rows : List Text) (place : Nat × Nat) : Decidable (SeenFirst rows place) :=
  inferInstanceAs (Decidable (∀ i < place.1, ¬ Comment.Resembles rows place i))

/-- The record has the rows of the paragraph at `place` of a capture. -/
def AtOwnRows (c : Capture) (place : Nat × Nat) (r : Record) : Prop :=
  r.rows = (c.rows.1 + ↑place.1, c.rows.1 + ↑place.2)

/-- The record has the rows of the first stretch of the capture that resembles the paragraph at
`place`, which is the paragraph itself or stands above it. -/
def AtFirstLikeness (s : Source) (c : Capture) (place : Nat × Nat) (r : Record) : Prop :=
  ∃ i ≤ place.1, Comment.Resembles (s.cleanedRows c) place i ∧
    (∀ j < i, ¬ Comment.Resembles (s.cleanedRows c) place j) ∧
    r.rows = (c.rows.1 + ↑i, c.rows.1 + ↑(i + (place.2 - place.1)))

section

variable {c : Capture} {top i : Nat} {place : Nat × Nat} {r : Record}

theorem Recovered.rows_eq (h : s.Recovered c top place i r) :
    r.rows = (↑(top + i), ↑(top + i + (place.2 - place.1))) := by
  obtain ⟨left, right, -, hr⟩ := h.record
  rw [hr]
  rfl

theorem Recovered.atFirstLikeness (htop : c.rows.1 = top) (h : s.Recovered c top place i r) :
    s.AtFirstLikeness c place r := by
  refine ⟨i, h.le, h.resembles, h.least, ?_⟩
  rw [h.rows_eq, htop, Nat.add_assoc]
  rfl

theorem AtFirstLikeness.atOwnRows_iff (hle : place.1 ≤ place.2)
    (h : s.AtFirstLikeness c place r) :
    AtOwnRows c place r ↔ SeenFirst (s.cleanedRows c) place := by
  obtain ⟨i, hi, hres, hleast, hrows⟩ := h
  rw [AtOwnRows, hrows, Prod.mk.injEq]
  constructor
  · rintro ⟨heq, -⟩ j hj
    exact hleast j (by omega)
  · intro hseen
    have heq : i = place.1 := by
      rcases Nat.lt_or_eq_of_le hi with hlt | heq
      · exact absurd hres (hseen i hlt)
      · exact heq
    constructor <;> omega

end

/-- The records that paragraphs give at their own rows stand in the order of the paragraphs, and no
two of them share a row. -/
theorem pairwise_of_atOwnRows {c : Capture} {places : List (Nat × Nat)} {group : List Record}
    (hplaces : s.ParagraphPlaces c places) (h : List.Forall₂ (AtOwnRows c) places group) :
    group.Pairwise fun r r' => r.rows.2 < r'.rows.1 := by
  refine Sequence.pairwise_of_forall₂ (fun u v r r' hr hr' huv => ?_) h hplaces.ascending
  rw [hr, hr']
  change c.rows.1 + (u.2 : Int) < c.rows.1 + (v.1 : Int)
  omega

/-- The rows of the record do not leave those of the capture. -/
def InsideRows (c : Capture) (r : Record) : Prop :=
  c.rows.1 ≤ r.rows.1 ∧ r.rows.1 ≤ r.rows.2 ∧ r.rows.2 ≤ c.rows.2

theorem Recovered.insideRows {c : Capture} {top i : Nat} {place : Nat × Nat} {r : Record}
    (htop : c.rows.1 = top) (h : s.Recovered c top place i r) : InsideRows c r := by
  have hin := h.inside
  rw [InsideRows, h.rows_eq, htop]
  refine ⟨Int.ofNat_le.mpr (Nat.le_add_right _ _), Int.ofNat_le.mpr (Nat.le_add_right _ _), hin⟩

/-- Records in the rows of captures that follow each other are in the order of their rows. -/
theorem pairwise_flatten {captures : List Capture} {groups : List (List Record)}
    (hin : List.Forall₂ (fun c group => ∀ r ∈ group, InsideRows c r) captures groups)
    (hgroups : ∀ group ∈ groups, group.Pairwise fun r r' => r.rows.2 < r'.rows.1)
    (horder : captures.Pairwise fun c c' => c.rows.2 ≤ c'.rows.1) :
    groups.flatten.Pairwise fun r r' =>
      r.rows.1 < r'.rows.1 ∨ (r.rows.1 = r'.rows.1 ∧ r.rows.2 ≤ r'.rows.2) := by
  refine List.pairwise_flatten.mpr ⟨fun group hgroup => ?_, ?_⟩
  · obtain ⟨c, -, hc⟩ := Sequence.of_mem_right hin hgroup
    refine (hgroups group hgroup).imp_of_mem fun {r r'} hr _ hlt => .inl ?_
    obtain ⟨-, hle, -⟩ := hc r hr
    omega
  · refine Sequence.pairwise_of_forall₂ (fun c c' group group' hg hg' hcc r hr r' hr' => ?_)
      hin horder
    obtain ⟨-, hle, hout⟩ := hg r hr
    obtain ⟨hout', hle', -⟩ := hg' r' hr'
    omega

/-- A record has the rows of its own paragraph exactly if nothing above the paragraph resembles it;
else it has the rows of the first stretch that does. Where this happens nowhere, no two records of a
capture share a row, and those of captures in source order are in the order of their rows. -/
theorem exists_buildRecords_rows_iff (s : Source) {captures : List Capture}
    (h : ∀ c ∈ captures, c.Faithful s) :
    ∃ groups, s.buildRecords captures = .ok groups.flatten ∧
      List.Forall₂ (fun c group => ∃ places, s.ParagraphPlaces c places ∧
        List.Forall₂ (fun place r => s.AtFirstLikeness c place r ∧
          (AtOwnRows c place r ↔ SeenFirst (s.cleanedRows c) place)) places group)
        captures groups ∧
      ((∀ c ∈ captures, ∀ first last,
          Sequence.IsRun (Comment.isBoundary s.language?) (s.cleanedRows c) first last →
          SeenFirst (s.cleanedRows c) (first, last)) →
        (∀ group ∈ groups, group.Pairwise fun r r' => r.rows.2 < r'.rows.1) ∧
        (captures.Pairwise (fun c c' => c.rows.2 ≤ c'.rows.1) →
          groups.flatten.Pairwise fun r r' =>
            r.rows.1 < r'.rows.1 ∨ (r.rows.1 = r'.rows.1 ∧ r.rows.2 ≤ r'.rows.2))) := by
  obtain ⟨groups, hgroups, hmade⟩ := exists_buildRecords h
  have hall : List.Forall₂ (fun c group => ∃ places, s.ParagraphPlaces c places ∧
      List.Forall₂ (fun place r => InsideRows c r ∧ s.AtFirstLikeness c place r ∧
        (AtOwnRows c place r ↔ SeenFirst (s.cleanedRows c) place)) places group)
      captures groups := by
    refine hmade.imp fun c group ⟨start, stop, hstands, places, hplaces, hrs⟩ =>
      ⟨places, hplaces, ?_⟩
    have htop : c.rows.1 = start.1 := by rw [hstands.rows]
    refine List.forall₂_iff_zip.mpr ⟨hrs.length_eq, fun {place r} hpr => ?_⟩
    obtain ⟨i, hi⟩ := (List.forall₂_iff_zip.mp hrs).2 hpr
    have hrun := (hplaces.mem_iff place.1 place.2).mp (List.of_mem_zip hpr).1
    have hlike := hi.atFirstLikeness htop
    exact ⟨hi.insideRows htop, hlike, hlike.atOwnRows_iff hrun.ordered⟩
  refine ⟨groups, hgroups, ?_, fun hseen => ?_⟩
  · exact hall.imp fun c group ⟨places, hplaces, hrs⟩ =>
      ⟨places, hplaces, hrs.imp fun _ _ hr => hr.2⟩
  · have hdisjoint : ∀ group ∈ groups, group.Pairwise fun r r' => r.rows.2 < r'.rows.1 := by
      intro group hgroup
      obtain ⟨c, hc, places, hplaces, hrs⟩ := Sequence.of_mem_right hall hgroup
      refine pairwise_of_atOwnRows hplaces (List.forall₂_iff_zip.mpr ⟨hrs.length_eq, ?_⟩)
      intro place r hpr
      have hrun := (hplaces.mem_iff place.1 place.2).mp (List.of_mem_zip hpr).1
      exact ((List.forall₂_iff_zip.mp hrs).2 hpr).2.2.mpr (hseen c hc place.1 place.2 hrun)
    refine ⟨hdisjoint, pairwise_flatten (hall.imp fun c group ⟨places, _, hrs⟩ r hr => ?_) hdisjoint⟩
    obtain ⟨_, -, hin, -⟩ := Sequence.of_mem_right hrs hr
    exact hin

/-- Two comments one behind the other; the first has two paragraphs. -/
def neighbours : Source where
  path := "A.java"
  label := "java"
  text := "/* one\n\n two */ // one"

def neighbourBlock : Capture where
  kind := .block
  text := "/* one\n\n two */"
  offsets := (0, 15)
  rows := (0, 2)
  columns := (0, 7)
  context := .unknown

def neighbourLine : Capture where
  kind := .line
  text := "// one"
  offsets := (16, 22)
  rows := (2, 2)
  columns := (8, 14)
  context := .unknown

theorem exists_buildRecords_rows_iff_neighbours :
    (∀ c ∈ [neighbourBlock, neighbourLine], c.Faithful neighbours) ∧
    (∀ c ∈ [neighbourBlock, neighbourLine], ∀ first last,
      Sequence.IsRun (Comment.isBoundary neighbours.language?) (neighbours.cleanedRows c)
        first last → SeenFirst (neighbours.cleanedRows c) (first, last)) ∧
    [neighbourBlock, neighbourLine].Pairwise (fun c c' => c.rows.2 ≤ c'.rows.1) ∧
    ∃ groups : List (List Record),
      neighbours.buildRecords [neighbourBlock, neighbourLine] = .ok groups.flatten ∧
      (∀ group ∈ groups, group.Pairwise fun r r' => r.rows.2 < r'.rows.1) ∧
      groups.flatten.Pairwise fun r r' =>
        r.rows.1 < r'.rows.1 ∨ (r.rows.1 = r'.rows.1 ∧ r.rows.2 ≤ r'.rows.2) := by
  have hfaithful : ∀ c ∈ [neighbourBlock, neighbourLine], c.Faithful neighbours := by
    simp only [List.forall_mem_cons]
    refine ⟨⟨(0, 0), (2, 7), rfl, rfl, by decide, by decide, .inl (by decide)⟩,
      ⟨(2, 8), (2, 14), rfl, rfl, by decide, by decide, .inl (by decide)⟩, ?_⟩
    intro c hc
    cases hc
  have hblock : neighbours.cleanedRows neighbourBlock = ["one".toList, [], " two".toList] := by
    decide
  have hline : neighbours.cleanedRows neighbourLine = ["one".toList] := by decide
  have hseen : ∀ c ∈ [neighbourBlock, neighbourLine], ∀ first last,
      Sequence.IsRun (Comment.isBoundary neighbours.language?) (neighbours.cleanedRows c)
        first last → SeenFirst (neighbours.cleanedRows c) (first, last) := by
    intro c hc first last hrun
    have hord := hrun.ordered
    have hin := hrun.inside
    rcases List.mem_cons.mp hc with rfl | hc
    · have hlt : last < 3 := by rw [hblock] at hin; exact hin
      have hcases : first = 0 ∨ first = 1 ∨ (first = 2 ∧ last = 2) := by omega
      rcases hcases with rfl | rfl | ⟨rfl, rfl⟩
      · exact fun i hi => absurd hi (Nat.not_lt_zero i)
      · cases hrun.unbroken 1 [] (Nat.le_refl 1) hord (by rw [hblock]; rfl)
      · rw [hblock]
        decide
    · rw [List.mem_singleton.mp hc] at hin ⊢
      rw [hline, List.length_singleton] at hin
      have hfirst : first = 0 := by omega
      exact fun i hi => absurd hi (by omega)
  have horder : [neighbourBlock, neighbourLine].Pairwise (fun c c' => c.rows.2 ≤ c'.rows.1) := by
    decide
  obtain ⟨groups, hgroups, -, hrows⟩ := exists_buildRecords_rows_iff neighbours hfaithful
  exact ⟨hfaithful, hseen, horder, groups, hgroups, (hrows hseen).1, (hrows hseen).2 horder⟩

/-- The first paragraph holds the whole text of the second one. -/
def repeated : Source where
  path := "A.java"
  label := "java"
  text := "/* ab\n\n b */"

def repeatedCapture : Capture where
  kind := .block
  text := "/* ab\n\n b */"
  offsets := (0, 12)
  rows := (0, 2)
  columns := (0, 5)
  context := .unknown

set_option maxRecDepth 10000 in
/-- The paragraph in the last row of the comment gets the first row. -/
theorem repeated_rows :
    repeatedCapture.StandsAt repeated (0, 0) (2, 5) ∧
    Sequence.IsRun (Comment.isBoundary repeated.language?) (repeated.cleanedRows repeatedCapture)
      2 2 ∧
    (repeated.buildRecords [repeatedCapture]).toOption.map (·.map Record.rows) =
      some [(0, 0), (0, 0)] := by
  have hrows : repeated.cleanedRows repeatedCapture = ["ab".toList, [], " b".toList] := by decide
  refine ⟨⟨rfl, rfl, by decide, by decide, .inl (by decide)⟩, ?_, by decide⟩
  rw [hrows]
  refine ⟨Nat.le_refl 2, by decide, ?_, ?_, ?_⟩
  · intro i row hi hi' hrow
    obtain rfl : i = 2 := Nat.le_antisymm hi' hi
    cases hrow
    decide
  · intro i row hi hrow
    obtain rfl : i = 1 := Nat.succ.inj hi
    cases hrow
    decide
  · intro row hrow
    cases hrow

end Marginalia.Source
