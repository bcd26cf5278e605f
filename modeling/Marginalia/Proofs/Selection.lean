import Marginalia.Proofs.Docstrings
import Marginalia.Proofs.Encoding

/-!
What is captured of a tree that is consistent with its text: the nodes that some pattern selects,
one for each range of bytes, and each as it stands in the lines of the text.
-/

namespace Marginalia

/-! ## Places in bytes -/

namespace Text

variable {t : Text} {offset start stop n : Nat}

theorem rowAt_take (t : Text) (h : offset ≤ n) : rowAt (t.take n) offset = t.rowAt offset := by
  rw [rowAt, List.take_take, Nat.min_eq_left h, rowAt]

theorem columnAt_take (t : Text) (h : offset ≤ n) :
    columnAt (t.take n) offset = t.columnAt offset := by
  rw [columnAt, List.take_take, Nat.min_eq_left h, columnAt]

theorem positionAt_take (t : Text) (h : offset ≤ n) :
    positionAt (t.take n) offset = t.positionAt offset := by
  rw [positionAt, List.take_take, Nat.min_eq_left h, rowAt_take t h]
  rfl

theorem slice_take (t : Text) (h : stop ≤ n) :
    Sequence.slice (t.take n) start stop = Sequence.slice t start stop := by
  rw [Sequence.slice, List.take_take, Nat.min_eq_left h, Sequence.slice]

/-- A column in bytes tells the column in characters. -/
theorem exists_characterColumn (h : offset ≤ t.length) :
    ∃ row, t.lines[t.rowAt offset]? = some row ∧
      SyntaxTree.characterColumn row.encode (t.positionAt offset).column = t.columnAt offset := by
  obtain ⟨before, after, hrow, hlength, hbefore⟩ := exists_rowBefore h
  refine ⟨before ++ after, hrow, ?_⟩
  have hcolumn : (t.positionAt offset).column =
      utf8Length ((before ++ after).take before.length) := by
    rw [List.take_left, ← utf8Length_reverse, ← hbefore]
    rfl
  rw [SyntaxTree.characterColumn, hcolumn, take_encode, Bytes.decodeDropping_encode, List.take_left,
    hlength]

/-! ### The end of the last row -/

/-- The stretch ends where a row begins that is not its first one. -/
def EndsAbove (t : Text) (start stop : Nat) : Prop :=
  (t.positionAt stop).column = 0 ∧ t.rowAt start < t.rowAt stop

instance (t : Text) (start stop : Nat) : Decidable (t.EndsAbove start stop) :=
  inferInstanceAs (Decidable (_ ∧ _))

/-- Where the last row of a stretch ends: a line feed at the end of the stretch is left out. -/
def rowEnd (t : Text) (start stop : Nat) : Nat := if t.EndsAbove start stop then stop - 1 else stop

theorem rowEnd_take (t : Text) (hstart : start ≤ n) (hstop : stop ≤ n) :
    rowEnd (t.take n) start stop = t.rowEnd start stop := by
  have hends : EndsAbove (t.take n) start stop ↔ t.EndsAbove start stop := by
    unfold EndsAbove
    rw [positionAt_take t hstop, rowAt_take t hstart, rowAt_take t hstop]
  rw [rowEnd, rowEnd, if_congr hends rfl rfl]

theorem rowEnd_le (t : Text) (start stop : Nat) : t.rowEnd start stop ≤ stop := by
  rw [rowEnd]
  split
  · exact Nat.sub_le stop 1
  · exact Nat.le_refl stop

theorem EndsAbove.exists_newline (h : t.EndsAbove start stop) (hs : stop ≤ t.length) :
    ∃ m, stop = m + 1 ∧ start ≤ m ∧ t.take (m + 1) = t.take m ++ ['\n'] := by
  obtain ⟨m, rfl, htake⟩ := take_eq_concat_newline hs (Nat.zero_lt_of_lt h.2) h.1
  refine ⟨m, rfl, ?_, htake⟩
  by_contra hlt
  exact absurd h.2 (Nat.not_lt.mpr (t.rowAt_le_rowAt (Nat.not_le.mp hlt)))

theorem le_rowEnd (h : start ≤ stop) (hs : stop ≤ t.length) : start ≤ t.rowEnd start stop := by
  rw [rowEnd]
  split
  · rename_i hends
    obtain ⟨m, rfl, hm, -⟩ := hends.exists_newline hs
    exact hm
  · exact h

theorem slice_rowEnd (hs : stop ≤ t.length) :
    Sequence.slice t start stop =
      Sequence.slice t start (t.rowEnd start stop) ++
        if t.EndsAbove start stop then ['\n'] else [] := by
  rw [rowEnd]
  split
  · rename_i hends
    obtain ⟨m, rfl, hm, htake⟩ := hends.exists_newline hs
    have hlength : start ≤ (t.take m).length := by
      rw [List.length_take_of_le (Nat.le_of_succ_le hs)]
      exact hm
    rw [Sequence.slice, htake, List.drop_append_of_le_length hlength, Nat.add_sub_cancel]
    rfl
  · rw [List.append_nil]

/-- A row with a line feed behind it is as long as the column of the line feed tells. -/
theorem exists_row_of_newline {m : Nat} (h : t.take (m + 1) = t.take m ++ ['\n'])
    (hm : m < t.length) : ∃ row, t.lines[t.rowAt m]? = some row ∧ row.length = t.columnAt m := by
  obtain ⟨above, last, hlines, -, hu⟩ := exists_lastRow (t.take m)
  have hsplit : t.take m ++ '\n' :: t.drop (m + 1) = t := by
    rw [← List.singleton_append, ← List.append_assoc, ← h, List.take_append_drop]
  obtain ⟨-, hplace⟩ := hu ('\n' :: t.drop (m + 1))
  rw [hsplit, List.length_take_of_le (Nat.le_of_lt hm)] at hplace
  obtain ⟨hrow, hcolumn⟩ := Prod.mk.inj hplace
  refine ⟨last, ?_, hcolumn.symm⟩
  have hall : t.lines = above ++ last :: lines (t.drop (m + 1)) := by
    rw [← List.singleton_append, ← List.append_assoc, ← hlines, ← lines_append_newline, hsplit]
  rw [hrow, hall, List.getElem?_append_right (Nat.le_refl _), Nat.sub_self]
  rfl

end Text

namespace SyntaxTree

variable {t : SyntaxTree} {text : Text} {language : Language}

/-! ## The capture of a node -/

section

variable {u : SyntaxTree} {start stop : Nat}

theorem endsAbove_iff (hstart : u.label.start = text.positionAt start)
    (hstop : u.label.stop = text.positionAt stop) :
    (u.label.stop.column = 0 && u.label.start.row < u.label.stop.row) = true ↔
      text.EndsAbove start stop := by
  rw [hstart, hstop, Bool.and_eq_true_iff, decide_eq_true_iff, decide_eq_true_iff]
  rfl

/-- The last row of a node and the column in bytes at which the node ends there. -/
theorem exists_lastPlace?_encode (hstart : u.label.start = text.positionAt start)
    (hstop : u.label.stop = text.positionAt stop) (hs : stop ≤ text.length) :
    ∃ column row,
      u.lastPlace? text.encode = some (text.rowAt (text.rowEnd start stop), column) ∧
      text.lines[text.rowAt (text.rowEnd start stop)]? = some row ∧
      characterColumn row.encode column = text.columnAt (text.rowEnd start stop) := by
  rw [lastPlace?, Text.split_encode, Text.rowEnd]
  by_cases hends : text.EndsAbove start stop
  · rw [if_pos ((endsAbove_iff hstart hstop).mpr hends), if_pos hends]
    obtain ⟨m, rfl, -, htake⟩ := hends.exists_newline hs
    obtain ⟨row, hrow, hlength⟩ := Text.exists_row_of_newline htake hs
    have hlast : u.label.stop.row - 1 = text.rowAt m := by
      rw [hstop]
      change (text.take (m + 1)).count '\n' - 1 = _
      rw [htake, List.count_append]
      rfl
    refine ⟨row.encode.length, row, ?_, hrow, ?_⟩
    · rw [hlast, List.getElem?_map, hrow]
      rfl
    · rw [characterColumn, List.take_length, Bytes.decodeDropping_encode]
      exact hlength
  · rw [if_neg fun h => hends ((endsAbove_iff hstart hstop).mp h), if_neg hends]
    obtain ⟨row, hrow, hcolumn⟩ := Text.exists_characterColumn hs
    refine ⟨(text.positionAt stop).column, row, ?_, hrow, hcolumn⟩
    rw [hstop]
    rfl

/-- A node between two places of the text is captured as it stands there, where the bytes at hand
are those of the text. -/
theorem captureOf?_encode (hstart : u.label.start = text.positionAt start)
    (hstop : u.label.stop = text.positionAt stop) (h : start ≤ stop) (hs : stop ≤ text.length)
    (kind : CaptureKind) (context : Context) :
    captureOf? text.encode kind u.label.start u.label.stop context = some {
      kind
      text := Sequence.slice text start stop
      offsets := u.range
      rows := (text.rowAt start, text.rowAt (text.rowEnd start stop))
      columns := (text.columnAt start, text.columnAt (text.rowEnd start stop))
      context } := by
  obtain ⟨opening, hopening, hfirst⟩ := Text.exists_characterColumn (Nat.le_trans h hs)
  obtain ⟨column, closing, hlast, hclosing, hcolumn⟩ := exists_lastPlace?_encode hstart hstop hs
  have hrow : min (text.rowAt (text.rowEnd start stop)) (rowCount text.encode - 1) =
      text.rowAt (text.rowEnd start stop) := by
    have hlt := text.rowAt_lt_length_lines (text.rowEnd start stop)
    rw [rowCount, Text.split_encode, List.length_map]
    exact Nat.min_eq_left (Nat.le_sub_one_of_lt hlt)
  have htext : Bytes.decodeReplacing (Sequence.slice text.encode (text.positionAt start).offset
      (text.positionAt stop).offset) = Sequence.slice text start stop := by
    rw [← Bytes.decodeReplacing_encode (Sequence.slice text start stop), ← Text.slice_encode h]
    rfl
  rw [captureOf?_eq, hlast, Option.bind_some, hrow, Text.split_encode, List.getElem?_map,
    List.getElem?_map, hclosing, range, hstart, hstop, htext]
  change Option.bind (Option.map Text.encode text.lines[text.rowAt start]?) _ = _
  rw [hopening, Option.map_some, Option.bind_some, Option.map_some, Option.bind_some, hfirst,
    hcolumn]
  rfl

/-- The same where the bytes at hand are those of enough of the text. -/
theorem captureOf?_encode_take {n : Nat} (hstart : u.label.start = text.positionAt start)
    (hstop : u.label.stop = text.positionAt stop) (h : start ≤ stop) (hs : stop ≤ text.length)
    (hn : stop ≤ n) (kind : CaptureKind) (context : Context) :
    captureOf? (Text.encode (text.take n)) kind u.label.start u.label.stop context = some {
      kind
      text := Sequence.slice text start stop
      offsets := u.range
      rows := (text.rowAt start, text.rowAt (text.rowEnd start stop))
      columns := (text.columnAt start, text.columnAt (text.rowEnd start stop))
      context } := by
  have hstart_le : start ≤ n := Nat.le_trans h hn
  have hlast_le : text.rowEnd start stop ≤ n := Nat.le_trans (text.rowEnd_le start stop) hn
  have hin : stop ≤ (text.take n).length := by
    rw [List.length_take]
    exact Nat.le_min.mpr ⟨hn, hs⟩
  rw [captureOf?_encode (text.positionAt_take hstart_le ▸ hstart) (text.positionAt_take hn ▸ hstop)
    h hin, text.slice_take hn, text.rowEnd_take hstart_le hn, text.rowAt_take hstart_le,
    text.rowAt_take hlast_le, text.columnAt_take hstart_le, text.columnAt_take hlast_le]

end

/-! ## The nodes that are selected -/

theorem mem_ranges_selection_iff {range : Nat × Nat} :
    range ∈ (t.selection language).map (fun u => u.2.focus.range) ↔
      ∃ c ∈ t.cursors, (language.captureKind? c).isSome = true ∧ c.focus.range = range := by
  constructor
  · intro h
    obtain ⟨u, hu, rfl⟩ := List.mem_map.mp h
    obtain ⟨hcursor, hkind⟩ := mem_of_mem_selection hu
    exact ⟨u.2, hcursor, by rw [hkind]; rfl, rfl⟩
  · rintro ⟨c, hc, hsome, rfl⟩
    obtain ⟨kind, hkind⟩ := Option.isSome_iff_exists.mp hsome
    have hfound : (kind, c) ∈
        [CaptureKind.line, .block, .docstring].flatMap (t.ofKind language) := by
      refine List.mem_flatMap.mpr ⟨kind, ?_, mem_ofKind_iff.mpr ⟨rfl, hc, hkind⟩⟩
      cases kind <;> simp
    obtain ⟨u, hu, hrange⟩ : ∃ u ∈ Sequence.distinctBy
        (fun u : CaptureKind × Cursor => u.2.focus.range) _, u.2.focus.range = c.focus.range :=
      Sequence.exists_mem_distinctBy hfound
    exact List.mem_map.mpr ⟨u, Sequence.mem_sort.mpr hu, hrange⟩

theorem pairwise_selection (language : Language) (t : SyntaxTree) :
    ((t.selection language).map fun u => u.2.focus.range).Pairwise (rangeBefore · · = true) := by
  rw [List.pairwise_map]
  refine Sequence.pairwise_sort (fun a b c hab hbc => ?_)
    ((Sequence.pairwise_distinctBy _).imp fun {a b} hne => ?_)
  · simp only [rangeBefore, Bool.or_eq_true, Bool.and_eq_true, decide_eq_true_eq, beq_iff_eq] at *
    omega
  · have hne' : ¬ (a.2.focus.range.1 = b.2.focus.range.1 ∧ a.2.focus.range.2 = b.2.focus.range.2) :=
      fun h => hne (Prod.ext h.1 h.2)
    simp only [rangeBefore, Bool.or_eq_true, Bool.and_eq_true, decide_eq_true_eq, beq_iff_eq]
    omega

instance : Std.Irrefl fun a b => rangeBefore a b = true where
  irrefl a := by simp [rangeBefore]

instance : Std.Antisymm fun a b => rangeBefore a b = true where
  antisymm a b hab hba := by
    simp only [rangeBefore, Bool.or_eq_true, Bool.and_eq_true, decide_eq_true_eq, beq_iff_eq] at *
    exact Prod.ext (by omega) (by omega)

end SyntaxTree

/-- The patterns of what is captured, with the kind of the captures: every comment, and in Python
also the strings that make up the very first statement of a module or of the body of a function or a
class. -/
inductive Language.Selects : Language → CaptureKind → Cursor → Prop where
  | lineComment {c : Cursor} : c.kind = "line_comment" → Selects .java .line c
  | blockComment {c : Cursor} : c.kind = "block_comment" → Selects .java .block c
  | comment {c : Cursor} : c.kind = "comment" → Selects .python .line c
  | docstring {c statement : Cursor} : c.Documents statement → statement.before = [] →
      Selects .python .docstring c

theorem Language.captureKind?_eq_some_iff {language : Language} {kind : CaptureKind} {c : Cursor} :
    language.captureKind? c = some kind ↔ language.Selects kind c := by
  cases language with
  | java =>
      rw [captureKind?]
      constructor
      · intro h
        split at h
        · rename_i hline
          cases h
          exact .lineComment (beq_iff_eq.mp hline)
        · split at h
          · rename_i hblock
            cases h
            exact .blockComment (beq_iff_eq.mp hblock)
          · cases h
      · intro h
        cases h with
        | lineComment hline => rw [if_pos (beq_iff_eq.mpr hline)]
        | blockComment hblock => rw [hblock]; rfl
  | python =>
      constructor
      · intro h
        rcases SyntaxTree.captureKind?_cases c with ⟨hcomment, -, hkind⟩ | ⟨-, hdocstring, hkind⟩ |
          ⟨-, -, hkind⟩
        · cases hkind.symm.trans h
          exact .comment hcomment
        · cases hkind.symm.trans h
          obtain ⟨statement, hdocuments, hbefore⟩ := Cursor.isDocstring_iff.mp hdocstring
          exact .docstring hdocuments hbefore
        · cases hkind.symm.trans h
      · intro h
        cases h with
        | comment hcomment => exact SyntaxTree.captureKind?_eq_line_iff.mpr hcomment
        | docstring hdocuments hbefore =>
            exact SyntaxTree.captureKind?_eq_docstring_iff.mpr
              (Cursor.isDocstring_iff.mpr ⟨_, hdocuments, hbefore⟩)
  | pharo =>
      constructor
      · intro h
        cases h
      · intro h
        cases h

/-! ## The captures of a tree -/

/-- The capture is of the node: it has its range of bytes and its text, and the rows and columns cut
this text out of the lines of the source, but for the line feed of a node that ends where a row
below its first one begins. -/
structure Capture.Shows (c : Capture) (text : Text) (u : SyntaxTree) : Prop where
  offsets : c.offsets = u.range
  content : c.text = u.ownText
  cut : ∃ start stop : Nat × Nat, c.rows = (↑start.1, ↑stop.1) ∧ c.columns = (↑start.2, ↑stop.2) ∧
    start.1 ≤ stop.1 ∧ stop.1 < text.lines.length ∧
    u.ownText = Text.cut text.lines start stop ++
      if u.label.stop.column = 0 ∧ u.label.start.row < u.label.stop.row then ['\n'] else []

namespace SyntaxTree

variable {t u : SyntaxTree} {text : Text} {language : Language} {n : Nat}

theorem root_mem_cursors (t : SyntaxTree) : Cursor.root t ∈ t.cursors := by
  cases t
  rw [cursors, cursorsIn]
  exact List.mem_cons_self

/-- The bytes of a node that begins where the text does are those of the text up to its end. -/
theorem StandsIn.exists_text_eq (h : u.StandsIn text) (hroot : u.label.start.offset = 0) :
    ∃ n, u.label.text = Text.encode (text.take n) ∧
      u.label.stop.offset = Text.utf8Length (text.take n) := by
  obtain ⟨start, stop, hord, hin, hstart, hstop, htext⟩ := h
  have hzero : start = 0 := by
    rw [hstart] at hroot
    exact Text.utf8Length_take_inj (Nat.le_trans hord hin) (Nat.zero_le _) hroot
  subst hzero
  exact ⟨stop, htext, by rw [hstop]; rfl⟩

theorem StandsIn.exists_captureOf? (h : u.StandsIn text)
    (hn : u.label.stop.offset ≤ Text.utf8Length (text.take n)) (kind : CaptureKind)
    (context : Context) :
    ∃ c, captureOf? (Text.encode (text.take n)) kind u.label.start u.label.stop context = some c ∧
      c.kind = kind ∧ c.context = context ∧ c.Shows text u := by
  obtain ⟨start, stop, hord, hin, hstart, hstop, htext⟩ := h
  have hend : stop ≤ n := by
    rw [hstop] at hn
    exact Text.le_of_utf8Length_take_le hin hn
  have hown : u.ownText = Sequence.slice text start stop := by
    rw [ownText, htext, Bytes.decodeReplacing_encode]
  refine ⟨_, captureOf?_encode_take hstart hstop hord hin hend kind context, rfl, rfl, rfl,
    hown.symm, text.placeAt start, text.placeAt (text.rowEnd start stop), rfl, rfl, ?_, ?_, ?_⟩
  · exact text.rowAt_le_rowAt (Text.le_rowEnd hord hin)
  · exact text.rowAt_lt_length_lines _
  · rw [hown, Text.slice_rowEnd hin,
      Text.cut_placeAt (Text.le_rowEnd hord hin) (Nat.le_trans (text.rowEnd_le start stop) hin),
      hstart, hstop]
    rfl

/-- The tree is captured node by node, each as it stands in the text. -/
theorem exists_captures?_shows (ht : t.ConsistentWith text) (hroot : t.label.start.offset = 0)
    (hwithin : ∀ c ∈ t.cursors, c.focus.label.stop.offset ≤ t.label.stop.offset)
    (language : Language) :
    ∃ captures, t.captures? language = some captures ∧
      List.Forall₂ (fun u c => u ∈ t.selection language ∧ c.kind = u.1 ∧
        c.context = u.2.context (some language) ∧ c.Shows text u.2.focus)
        (t.selection language) captures := by
  obtain ⟨n, htext, hstop⟩ := (ht (Cursor.root t) t.root_mem_cursors).exists_text_eq hroot
  change t.label.text = _ at htext
  change t.label.stop.offset = _ at hstop
  have hstep : ∀ u ∈ t.selection language, ∃ c,
      captureOf? t.label.text u.1 u.2.focus.label.start u.2.focus.label.stop
        (u.2.context (some language)) = some c ∧ u ∈ t.selection language ∧ c.kind = u.1 ∧
        c.context = u.2.context (some language) ∧ c.Shows text u.2.focus := by
    intro u hu
    have hcursor := mem_cursors_of_mem_selection hu
    obtain ⟨c, hc, hshows⟩ := (ht u.2 hcursor).exists_captureOf? (hstop ▸ hwithin u.2 hcursor) u.1
      (u.2.context (some language))
    exact ⟨c, htext ▸ hc, hu, hshows⟩
  obtain ⟨captures, hcaptures⟩ := Sequence.exists_forall₂ hstep
  refine ⟨captures, ?_, hcaptures.imp fun u c hc => hc.2⟩
  rw [captures?, Sequence.mapM_eq_some]
  exact hcaptures.imp fun u c hc => hc.1

theorem eq_of_offsets_eq {captures : List Capture} {a b : Capture}
    (h : captures.Pairwise fun a b => rangeBefore a.offsets b.offsets = true)
    (ha : a ∈ captures) (hb : b ∈ captures) (hab : a.offsets = b.offsets) : a = b := by
  have hnodup : (captures.map Capture.offsets).Nodup := by
    refine List.pairwise_map.mpr (h.imp fun {a b} hbefore heq => ?_)
    rw [heq] at hbefore
    exact Std.Irrefl.irrefl (r := fun a b => rangeBefore a b = true) _ hbefore
  exact List.inj_on_of_nodup_map hnodup ha hb hab

/-- A tree that begins where its text does, and whose nodes reach no further than its root, is
captured: in the order of the ranges of bytes, once for each range of a node that some pattern
selects, and every capture shows such a node. -/
theorem exists_captures?_exact (ht : t.ConsistentWith text) (hroot : t.label.start.offset = 0)
    (hwithin : ∀ c ∈ t.cursors, c.focus.label.stop.offset ≤ t.label.stop.offset)
    (language : Language) :
    ∃ captures, t.captures? language = some captures ∧
      captures.Pairwise (fun a b => rangeBefore a.offsets b.offsets = true) ∧
      (∀ range, (∃ kind, ∃ d ∈ t.cursors, language.Selects kind d ∧ d.focus.range = range) ↔
        ∃! c, c ∈ captures ∧ c.offsets = range) ∧
      ∀ c ∈ captures, ∃ d ∈ t.cursors, language.Selects c.kind d ∧
        c.context = d.context (some language) ∧ c.Shows text d.focus := by
  obtain ⟨captures, hcaptures, hall⟩ := exists_captures?_shows ht hroot hwithin language
  have hordered : captures.Pairwise fun a b => rangeBefore a.offsets b.offsets = true := by
    refine Sequence.pairwise_of_forall₂ (fun u v a b ha hb hbefore => ?_) hall
      (List.pairwise_map.mp (pairwise_selection language t))
    obtain ⟨-, -, -, hshows⟩ := ha
    obtain ⟨-, -, -, hshows'⟩ := hb
    rw [hshows.offsets, hshows'.offsets]
    exact hbefore
  have hnode : ∀ c ∈ captures, ∃ d ∈ t.cursors, language.Selects c.kind d ∧
      c.context = d.context (some language) ∧ c.Shows text d.focus := by
    intro c hc
    obtain ⟨u, -, hu, hkind, hcontext, hshows⟩ := Sequence.of_mem_right hall hc
    obtain ⟨hcursor, hselected⟩ := mem_of_mem_selection hu
    rw [hkind]
    exact ⟨u.2, hcursor, Language.captureKind?_eq_some_iff.mp hselected, hcontext, hshows⟩
  refine ⟨captures, hcaptures, hordered, fun range => ⟨?_, ?_⟩, hnode⟩
  · rintro ⟨kind, d, hd, hselects, hrange⟩
    have hsome : (language.captureKind? d).isSome = true := by
      rw [Language.captureKind?_eq_some_iff.mpr hselects]
      rfl
    obtain ⟨u, hu, hu'⟩ := List.mem_map.mp (mem_ranges_selection_iff.mpr ⟨d, hd, hsome, hrange⟩)
    obtain ⟨c, hc, -, -, -, hshows⟩ := Sequence.exists_of_mem_left hall hu
    have hoffsets : c.offsets = range := hshows.offsets.trans hu'
    refine ⟨c, ⟨hc, hoffsets⟩, fun b hb => ?_⟩
    exact eq_of_offsets_eq hordered hb.1 hc (hb.2.trans hoffsets.symm)
  · rintro ⟨c, ⟨hc, hoffsets⟩, -⟩
    obtain ⟨d, hd, hselects, -, hshows⟩ := hnode c hc
    exact ⟨c.kind, d, hd, hselects, hshows.offsets.symm.trans hoffsets⟩

/-- A comment behind and with wide characters, which takes the line feed behind it along. -/
def swallowed : Text := "é // ü\n漢"

def swallowedTree : SyntaxTree :=
  nodeAt swallowed "program" 0 8 [nodeAt swallowed "line_comment" 2 7 []]

set_option maxRecDepth 10000 in
theorem exists_captures?_exact_swallowed :
    swallowedTree.ConsistentWith swallowed ∧ swallowedTree.label.start.offset = 0 ∧
    (∀ c ∈ swallowedTree.cursors,
      c.focus.label.stop.offset ≤ swallowedTree.label.stop.offset) ∧
    ∃ captures, swallowedTree.captures? .java = some captures ∧
      captures.map (fun c => (c.text, c.rows, c.columns)) = [("// ü\n".toList, (0, 0), (2, 6))] ∧
      (∃! c, c ∈ captures ∧ c.offsets = (3, 9)) ∧
      ∀ c ∈ captures, ∃ d ∈ swallowedTree.cursors, c.Shows swallowed d.focus := by
  have hconsistent : swallowedTree.ConsistentWith swallowed := by
    refine List.forall_mem_cons.mpr ⟨standsIn_nodeAt (by decide) (by decide), ?_⟩
    exact List.forall_mem_singleton.mpr (standsIn_nodeAt (by decide) (by decide))
  have hwithin : ∀ c ∈ swallowedTree.cursors,
      c.focus.label.stop.offset ≤ swallowedTree.label.stop.offset := by
    refine List.forall_mem_cons.mpr ⟨by decide, ?_⟩
    exact List.forall_mem_singleton.mpr (by decide)
  have hvalues : (swallowedTree.captures? .java).map
      (·.map fun c => (c.text, c.rows, c.columns)) =
        some [("// ü\n".toList, (0, 0), (2, 6))] := by decide
  obtain ⟨captures, hcaptures, -, hranges, hshown⟩ :=
    exists_captures?_exact hconsistent (by decide) hwithin .java
  rw [hcaptures] at hvalues
  refine ⟨hconsistent, by decide, hwithin, captures, hcaptures, Option.some.inj hvalues,
    (hranges (3, 9)).mp ?_, fun c hc => ?_⟩
  · exact ⟨.line, _, List.mem_of_getElem? (i := 1) rfl, .lineComment rfl, by decide⟩
  · obtain ⟨d, hd, -, -, hshows⟩ := hshown c hc
    exact ⟨d, hd, hshows⟩

end SyntaxTree

end Marginalia
