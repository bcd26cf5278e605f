import Marginalia.Proofs.Captures
import Marginalia.Proofs.Moved
import Marginalia.Proofs.Utf8

/-!
Trees that are consistent with a text: every node says truly where it stands there, and what stands
there. A comment in such a tree stands in the rows of the text; a tree that is moved down is
consistent with the text that is.
-/

namespace Marginalia

/-! ## Places as a grammar tells them -/

namespace Text

/-- The place of the character at `offset`, counted in bytes. -/
def positionAt (t : Text) (offset : Nat) : Position where
  offset := utf8Length (t.take offset)
  row := t.rowAt offset
  column := utf8Length ((t.take offset).reverse.takeWhile (· != '\n'))

/-- The text below `k` empty rows. -/
def moved (k : Nat) (t : Text) : Text := List.replicate k '\n' ++ t

variable (k : Nat) (t : Text)

theorem lines_moved : lines (moved k t) = List.replicate k [] ++ t.lines := by
  induction k with
  | zero => rfl
  | succ k ih =>
      rw [moved, List.replicate_succ, List.replicate_succ, List.cons_append, List.cons_append, ← ih]
      exact lines_append_newline [] _

theorem length_moved : (moved k t).length = t.length + k := by
  rw [moved, List.length_append, List.length_replicate, Nat.add_comm]

theorem utf8Length_moved : utf8Length (moved k t) = t.utf8Length + k := by
  rw [moved, utf8Length_append, utf8Length_replicate_newline, Nat.add_comm]

theorem take_moved (offset : Nat) : (moved k t).take (offset + k) = moved k (t.take offset) := by
  rw [moved, List.take_append, List.length_replicate, Nat.add_sub_cancel,
    List.take_of_length_le (by rw [List.length_replicate]; exact Nat.le_add_left k offset)]
  rfl

theorem slice_moved (start stop : Nat) :
    Sequence.slice (moved k t) (start + k) (stop + k) = Sequence.slice t start stop := by
  rw [Sequence.slice, take_moved, moved, List.drop_append, List.length_replicate,
    Nat.add_sub_cancel, List.drop_of_length_le (by rw [List.length_replicate]; omega)]
  rfl

theorem positionAt_moved (offset : Nat) :
    positionAt (moved k t) (offset + k) = (t.positionAt offset).moved k := by
  have hnone : (List.replicate k '\n').takeWhile (· != '\n') = [] := List.takeWhile_replicate
  have hcolumn : (moved k (t.take offset)).reverse.takeWhile (· != '\n') =
      (t.take offset).reverse.takeWhile (· != '\n') := by
    rw [moved, List.reverse_append, List.reverse_replicate, List.takeWhile_append]
    split
    · rename_i hwhole
      rw [hnone, List.append_nil, (List.takeWhile_prefix _).eq_of_length hwhole]
    · rfl
  rw [positionAt, positionAt, Position.moved, rowAt, take_moved, hcolumn, utf8Length_moved, moved,
    List.count_append, List.count_replicate_self, Nat.add_comm k]
  rfl

/-- Where a row below the first one begins, a line feed stands in front. -/
theorem take_eq_concat_newline {t : Text} {offset : Nat} (hoffset : offset ≤ t.length)
    (hrow : 0 < t.rowAt offset) (hcolumn : (t.positionAt offset).column = 0) :
    ∃ m, offset = m + 1 ∧ t.take offset = t.take m ++ ['\n'] := by
  have hempty : (t.take offset).reverse.takeWhile (· != '\n') = [] := utf8Length_eq_zero hcolumn
  rcases List.eq_nil_or_concat' (t.take offset) with hnil | ⟨front, c, hconcat⟩
  · rw [rowAt, hnil] at hrow
    exact absurd hrow (Nat.lt_irrefl 0)
  · have hc : c = '\n' := by
      rw [hconcat, List.reverse_append, List.reverse_singleton, List.singleton_append] at hempty
      by_contra hne
      rw [List.takeWhile_cons_of_pos (by simpa using hne)] at hempty
      cases hempty
    have hlength : offset = front.length + 1 := by
      rw [← List.length_take_of_le hoffset, hconcat, List.length_append]
      rfl
    refine ⟨front.length, hlength, ?_⟩
    have hfront : t.take front.length = front := by
      calc t.take front.length
          = (t.take offset).take front.length := by
            rw [List.take_take, hlength, Nat.min_eq_left (Nat.le_succ _)]
        _ = front := by rw [hconcat, List.take_left]
    rw [hfront, hconcat, hc]

/-- What ends where a row begins is what ends with the row above, and a line feed. -/
theorem exists_slice_eq_cut_concat {t : Text} {start stop : Nat} (hstop : stop ≤ t.length)
    (hrow : t.rowAt start < t.rowAt stop) (hcolumn : (t.positionAt stop).column = 0) :
    ∃ m, start ≤ m ∧ t.rowAt m = t.rowAt stop - 1 ∧
      Sequence.slice t start stop = cut t.lines (t.placeAt start) (t.placeAt m) ++ ['\n'] := by
  obtain ⟨m, rfl, htake⟩ := take_eq_concat_newline hstop (Nat.zero_lt_of_lt hrow) hcolumn
  have hm : m ≤ t.length := Nat.le_of_succ_le hstop
  have hstart : start ≤ m := by
    by_contra hlt
    exact absurd hrow (Nat.not_lt.mpr (t.rowAt_le_rowAt (Nat.not_le.mp hlt)))
  have hlength : start ≤ (t.take m).length := by
    rw [List.length_take_of_le hm]
    exact hstart
  refine ⟨m, hstart, ?_, ?_⟩
  · rw [rowAt, rowAt, htake, List.count_append]
    rfl
  · rw [cut_placeAt hstart hm, Sequence.slice, htake, List.drop_append_of_le_length hlength]
    rfl

end Text

/-! ## Consistent trees -/

namespace SyntaxTree

/-- The node stands in the text: its places are places of the text, and its bytes are what is
between them. -/
def StandsIn (t : SyntaxTree) (text : Text) : Prop :=
  ∃ start stop, start ≤ stop ∧ stop ≤ text.length ∧
    t.label.start = text.positionAt start ∧ t.label.stop = text.positionAt stop ∧
    t.label.text = Text.encode (Sequence.slice text start stop)

/-- All nodes of the tree stand in the text. -/
def ConsistentWith (t : SyntaxTree) (text : Text) : Prop :=
  ∀ c ∈ t.cursors, c.focus.StandsIn text

def ownText (t : SyntaxTree) : Text := t.label.text.decodeReplacing

/-- The node of a kind that stands between two offsets of the text. -/
def nodeAt (text : Text) (kind : Text) (start stop : Nat) (children : List SyntaxTree) :
    SyntaxTree :=
  node ⟨kind, none, text.positionAt start, text.positionAt stop,
    Text.encode (Sequence.slice text start stop)⟩ children

/-- The node in the part `field` of its parent. -/
def playing (field : Text) : SyntaxTree → SyntaxTree
  | node label children => node { label with field := some field } children

variable {t : SyntaxTree} {text : Text}

theorem standsIn_nodeAt {kind : Text} {start stop : Nat} {children : List SyntaxTree}
    (h : start ≤ stop) (h' : stop ≤ text.length) :
    (nodeAt text kind start stop children).StandsIn text :=
  ⟨start, stop, h, h', rfl, rfl, rfl⟩

theorem StandsIn.moved (h : t.StandsIn text) (k : Nat) : (t.moved k).StandsIn (text.moved k) := by
  obtain ⟨start, stop, hord, hin, hstart, hstop, htext⟩ := h
  refine ⟨start + k, stop + k, Nat.add_le_add_right hord k, ?_, ?_, ?_, ?_⟩
  · rw [Text.length_moved]
    exact Nat.add_le_add_right hin k
  · rw [Text.positionAt_moved, ← hstart, label_moved]
    rfl
  · rw [Text.positionAt_moved, ← hstop, label_moved]
    rfl
  · rw [Text.slice_moved, ← htext, label_moved]
    rfl

theorem ConsistentWith.moved (h : t.ConsistentWith text) (k : Nat) :
    (t.moved k).ConsistentWith (text.moved k) := by
  intro c hc
  rw [cursors_moved] at hc
  obtain ⟨own, hown, rfl⟩ := List.mem_map.mp hc
  exact (h own hown).moved k

/-- The rows of the text that a node occupies hold what stands at the node, from its first row to
its last one. -/
theorem StandsIn.standsFrom (h : t.StandsIn text) :
    Comment.StandsFrom text.lines t.ownText.lines t.label.start.row (Constructs.lastRow t) ∧
      t.label.start.row ≤ Constructs.lastRow t ∧ Constructs.lastRow t < text.lines.length := by
  obtain ⟨start, stop, hord, hin, hstart, hstop, htext⟩ := h
  have hown : t.ownText = Sequence.slice text start stop := by
    rw [ownText, htext, Bytes.decodeReplacing_encode]
  have hrow : t.label.start.row = (text.placeAt start).1 := by rw [hstart]; rfl
  have hlast : Constructs.lastRow t =
      if (text.positionAt stop).column = 0 && text.rowAt start < text.rowAt stop
      then text.rowAt stop - 1 else text.rowAt stop := by
    rw [Constructs.lastRow, hstart, hstop]
    rfl
  rw [hrow, hlast]
  split
  · rename_i hends
    obtain ⟨hcolumn, hlower⟩ := Bool.and_eq_true_iff.mp hends
    obtain ⟨m, hstartm, hm, hslice⟩ := Text.exists_slice_eq_cut_concat hin
      (of_decide_eq_true hlower) (of_decide_eq_true hcolumn)
    have hle := text.rowAt_le_rowAt hstartm
    have hlt := text.rowAt_lt_length_lines m
    rw [← hm]
    exact ⟨Comment.standsFrom_cut hle hlt (.inr (hown.trans hslice)), hle, hlt⟩
  · have hle := text.rowAt_le_rowAt hord
    have hlt := text.rowAt_lt_length_lines stop
    exact ⟨Comment.standsFrom_cut hle hlt (.inl (hown.trans (Text.cut_placeAt hord hin).symm)),
      hle, hlt⟩

end SyntaxTree

end Marginalia
