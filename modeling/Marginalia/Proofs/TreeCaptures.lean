import Marginalia.Proofs.Consistent

/-!
Captures of the nodes of a tree. They are cut out of the bytes of the root by places that count from
the start of the source, so a capture says what stands at its node only where these bytes hold it at
the same places.
-/

namespace Marginalia.SyntaxTree

def rowCount (source : Bytes) : Nat := (Sequence.split (10 : UInt8) source).length

theorem rowCount_pos (source : Bytes) : 0 < rowCount source := Sequence.length_splitWhen_pos _ source

/-- The bytes at hand hold the node at its places: its first row is one of theirs, so is its last
one where the node ends at the start of a row, and what they hold there is its text. -/
structure HeldBy (t : SyntaxTree) (source : Bytes) : Prop where
  opens : t.label.start.row < rowCount source
  closes : t.label.stop.column = 0 → t.label.start.row < t.label.stop.row →
    t.label.stop.row ≤ rowCount source
  text : Bytes.decodeReplacing
    (Sequence.slice source t.label.start.offset t.label.stop.offset) = t.ownText

/-- The capture was taken of the node out of the bytes at hand, its rows cut to theirs. -/
structure TakenFrom (c : Capture) (source : Bytes) (t : SyntaxTree) (context : Context) :
    Prop where
  text : c.text = Bytes.decodeReplacing
    (Sequence.slice source t.label.start.offset t.label.stop.offset)
  rows : c.rows = (↑t.label.start.row, ↑(min (Constructs.lastRow t) (rowCount source - 1)))
  context : c.context = context

/-! ## The capture of a node -/

variable {source : Bytes} {kind : CaptureKind} {t : SyntaxTree} {context : Context}

/-- The place of the last character of a node in the bytes at hand. -/
def lastPlace? (source : Bytes) (t : SyntaxTree) : Option (Nat × Nat) :=
  if t.label.stop.column = 0 && t.label.start.row < t.label.stop.row then
    (Sequence.split (10 : UInt8) source)[t.label.stop.row - 1]?.map
      fun line => (t.label.stop.row - 1, line.length)
  else some (t.label.stop.row, t.label.stop.column)

theorem lastPlace?_eq_some {place : Nat × Nat} (h : t.lastPlace? source = some place) :
    place.1 = Constructs.lastRow t ∧
      (t.label.stop.column = 0 → t.label.start.row < t.label.stop.row →
        t.label.stop.row ≤ rowCount source) := by
  rw [lastPlace?] at h
  rw [Constructs.lastRow]
  split at h
  · rename_i hends
    obtain ⟨line, hline, rfl⟩ := Option.map_eq_some_iff.mp h
    have hin : t.label.stop.row - 1 < rowCount source := (List.getElem?_eq_some_iff.mp hline).1
    exact ⟨(if_pos hends).symm, fun _ _ => by omega⟩
  · rename_i hends
    cases h
    refine ⟨(if_neg hends).symm, fun hcolumn hlt => absurd ?_ hends⟩
    rw [decide_eq_true hcolumn, decide_eq_true hlt]
    rfl

theorem exists_lastPlace? (h : t.label.stop.column = 0 → t.label.start.row < t.label.stop.row →
    t.label.stop.row ≤ rowCount source) : ∃ place, t.lastPlace? source = some place := by
  rw [lastPlace?]
  split
  · rename_i hends
    obtain ⟨hcolumn, hlt⟩ := Bool.and_eq_true_iff.mp hends
    have hle := h (of_decide_eq_true hcolumn) (of_decide_eq_true hlt)
    have hpos := rowCount_pos source
    have hin : t.label.stop.row - 1 < (Sequence.split (10 : UInt8) source).length := by
      change _ < rowCount source
      omega
    exact ⟨_, congrArg (Option.map _) (List.getElem?_eq_getElem hin)⟩
  · exact ⟨_, rfl⟩

theorem captureOf?_eq :
    captureOf? source kind t.label.start t.label.stop context =
      (t.lastPlace? source).bind fun place =>
        (Sequence.split (10 : UInt8) source)[t.label.start.row]?.bind fun firstLine =>
          (Sequence.split (10 : UInt8) source)[min place.1 (rowCount source - 1)]?.bind
            fun lastLine => some {
              kind
              text := Bytes.decodeReplacing
                (Sequence.slice source t.label.start.offset t.label.stop.offset)
              offsets := (t.label.start.offset, t.label.stop.offset)
              rows := (t.label.start.row, (min place.1 (rowCount source - 1) : Nat))
              columns := (characterColumn firstLine t.label.start.column,
                characterColumn lastLine place.2)
              context } := by
  rw [captureOf?, lastPlace?]
  split <;> rfl

theorem captureOf?_takenFrom {c : Capture}
    (h : captureOf? source kind t.label.start t.label.stop context = some c) :
    TakenFrom c source t context ∧ t.label.start.row < rowCount source ∧
      (t.label.stop.column = 0 → t.label.start.row < t.label.stop.row →
        t.label.stop.row ≤ rowCount source) := by
  rw [captureOf?_eq] at h
  obtain ⟨place, hplace, h⟩ := Option.bind_eq_some_iff.mp h
  obtain ⟨firstLine, hfirst, h⟩ := Option.bind_eq_some_iff.mp h
  obtain ⟨lastLine, -, h⟩ := Option.bind_eq_some_iff.mp h
  obtain ⟨hrow, hcloses⟩ := lastPlace?_eq_some hplace
  cases h
  rw [hrow]
  exact ⟨⟨rfl, rfl, rfl⟩, (List.getElem?_eq_some_iff.mp hfirst).1, hcloses⟩

theorem exists_captureOf? (kind : CaptureKind) (context : Context)
    (hopens : t.label.start.row < rowCount source)
    (hcloses : t.label.stop.column = 0 → t.label.start.row < t.label.stop.row →
      t.label.stop.row ≤ rowCount source) :
    ∃ c, captureOf? source kind t.label.start t.label.stop context = some c := by
  obtain ⟨place, hplace⟩ := exists_lastPlace? hcloses
  have hlast : min place.1 (rowCount source - 1) < (Sequence.split (10 : UInt8) source).length :=
    Nat.lt_of_le_of_lt (Nat.min_le_right _ _) (Nat.sub_one_lt_of_lt (rowCount_pos source))
  rw [captureOf?_eq, hplace, Option.bind_some, List.getElem?_eq_getElem hopens, Option.bind_some,
    List.getElem?_eq_getElem hlast, Option.bind_some]
  exact ⟨_, rfl⟩

/-- A capture says what stands at its node exactly where the bytes at hand hold the node. -/
theorem exists_captureOf?_ownText_iff :
    (∃ c, captureOf? source kind t.label.start t.label.stop context = some c ∧
      c.text = t.ownText) ↔ t.HeldBy source := by
  constructor
  · rintro ⟨c, hc, htext⟩
    obtain ⟨htaken, hopens, hcloses⟩ := captureOf?_takenFrom hc
    exact ⟨hopens, hcloses, htaken.text.symm.trans htext⟩
  · intro h
    obtain ⟨c, hc⟩ := exists_captureOf? kind context h.opens h.closes
    exact ⟨c, hc, (captureOf?_takenFrom hc).1.text.trans h.text⟩

/-! ## The captures of a tree -/

variable {language : Language}

theorem mem_ofKind_iff {kind : CaptureKind} {u : CaptureKind × Cursor} :
    u ∈ t.ofKind language kind ↔
      u.1 = kind ∧ u.2 ∈ t.cursors ∧ language.captureKind? u.2 = some kind := by
  simp only [ofKind, List.mem_map, List.mem_filter, beq_iff_eq]
  constructor
  · rintro ⟨c, hc, rfl⟩
    exact ⟨rfl, hc⟩
  · rintro ⟨rfl, hc⟩
    exact ⟨u.2, hc, rfl⟩

theorem mem_of_mem_selection {u : CaptureKind × Cursor} (h : u ∈ t.selection language) :
    u.2 ∈ t.cursors ∧ language.captureKind? u.2 = some u.1 := by
  obtain ⟨kind, -, h⟩ := List.mem_flatMap.mp
    (Sequence.mem_of_mem_distinctBy (Sequence.mem_sort.mp h))
  obtain ⟨rfl, hcursor, hkind⟩ := mem_ofKind_iff.mp h
  exact ⟨hcursor, hkind⟩

theorem mem_cursors_of_mem_selection {u : CaptureKind × Cursor} (h : u ∈ t.selection language) :
    u.2 ∈ t.cursors := (mem_of_mem_selection h).1

/-- The tree is captured, and every capture says what stands at its node. -/
def CapturesOwnTexts (language : Language) (t : SyntaxTree) : Prop :=
  ∃ captures, t.captures? language = some captures ∧
    captures.map Capture.text = (t.selection language).map fun u => u.2.focus.ownText

theorem capturesOwnTexts_iff :
    t.CapturesOwnTexts language ↔ ∀ u ∈ t.selection language, u.2.focus.HeldBy t.label.text := by
  rw [CapturesOwnTexts, captures?, Sequence.exists_mapM_some_iff]
  exact forall₂_congr fun u _ => exists_captureOf?_ownText_iff

theorem exists_captures? (h : ∀ u ∈ t.selection language, u.2.focus.HeldBy t.label.text) :
    ∃ captures, t.captures? language = some captures ∧
      List.Forall₂ (fun u c => c.text = u.2.focus.ownText ∧
        TakenFrom c t.label.text u.2.focus (u.2.context (some language)))
        (t.selection language) captures := by
  have hstep : ∀ u ∈ t.selection language, ∃ c,
      captureOf? t.label.text u.1 u.2.focus.label.start u.2.focus.label.stop
        (u.2.context (some language)) = some c ∧ c.text = u.2.focus.ownText :=
    fun u hu => exists_captureOf?_ownText_iff.mpr (h u hu)
  obtain ⟨captures, hcaptures⟩ := Sequence.exists_forall₂ hstep
  refine ⟨captures, ?_, hcaptures.imp fun u c hc => ⟨hc.2, (captureOf?_takenFrom hc.1).1⟩⟩
  rw [captures?, Sequence.mapM_eq_some]
  exact hcaptures.imp fun u c hc => hc.1

end Marginalia.SyntaxTree
