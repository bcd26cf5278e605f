import Marginalia.Proofs.Records
import Marginalia.Proofs.TreeCaptures

/-!
Empty rows put in front of a source. Whether they only shift the rows of its records depends on the
bytes of the root: these have to hold every comment at its old places and at its new ones.
-/

namespace Marginalia

/-! ## Moved sources and records -/

namespace Source

/-- The source below `k` empty rows. -/
def moved (k : Nat) (s : Source) : Source := { s with text := s.text.moved k }

variable (k : Nat) (s : Source)

theorem lines_moved : (s.moved k).lines = List.replicate k [] ++ s.lines := Text.lines_moved k s.text

theorem size_moved : (s.moved k).size = s.size + k := Text.utf8Length_moved k s.text

theorem getElem?_lines_moved (row : Nat) : (s.moved k).lines[row + k]? = s.lines[row]? := by
  rw [lines_moved, List.getElem?_append_right (by rw [List.length_replicate]; omega),
    List.length_replicate, Nat.add_sub_cancel]

end Source

def Record.moved (k : Nat) (r : Record) : Record := { r with rows := (r.rows.1 + k, r.rows.2 + k) }

namespace Comment.Points

variable {s : Source} {source content : List Text} {top left right left' right' : Nat}

theorem unique (h : Points source content top left right)
    (h' : Points source content top left' right') : left = left' ∧ right = right' := by
  obtain ⟨first, opening, hfirst, hopening, hleft⟩ := h.opens
  obtain ⟨last, closing, column, hlast, hclosing, hcolumn, rfl⟩ := h.closes
  obtain ⟨first', opening', hfirst', hopening', hleft'⟩ := h'.opens
  obtain ⟨last', closing', column', hlast', hclosing', hcolumn', rfl⟩ := h'.closes
  cases hfirst.symm.trans hfirst'
  cases hopening.symm.trans hopening'
  cases hlast.symm.trans hlast'
  cases hclosing.symm.trans hclosing'
  cases hleft.symm.trans hleft'
  cases hcolumn.symm.trans hcolumn'
  exact ⟨rfl, rfl⟩

theorem moved (h : Points s.lines content top left right) (k : Nat) :
    Points (s.moved k).lines content (top + k) left right := by
  refine ⟨fun j row hrow => ?_, ?_, ?_⟩
  · obtain ⟨hne, hline⟩ := h.within j row hrow
    rw [Nat.add_right_comm, s.getElem?_lines_moved k]
    exact ⟨hne, hline⟩
  · rw [s.getElem?_lines_moved k]
    exact h.opens
  · rw [Nat.add_right_comm, s.getElem?_lines_moved k]
    exact h.closes

end Comment.Points

/-! ## Captures with rows cut off -/

/-- The capture stands in rows `top` to `bottom` of the source, but its last row is cut to the first
`count` rows. -/
structure Capture.StandsCut (c : Capture) (s : Source) (top bottom count : Nat) : Prop where
  stands : Comment.StandsFrom s.lines (s.cleanedRows c) top bottom
  inside : bottom < s.lines.length
  rows : c.rows = (↑top, ↑(min bottom (count - 1)))

namespace Source

variable {s : Source} {c : Capture} {top bottom count : Nat} {p : Text}

/-- The record of a paragraph ends where the paragraph was located, or else at the last of the
`count` rows; in the first case it says where the paragraph stands. -/
theorem exists_recordOf (h : c.StandsCut s top bottom count)
    (hp : p ∈ Comment.paragraphs s.language? (Comment.clean s.language? c.text)) :
    ∃ first last, Comment.locateRows (s.cleanedRows c) p.lines = (first, last) ∧
      (∃ r, s.recordOf s.lines c (Comment.clean s.language? c.text) p = .ok r ∧
        r.rows.2 = ↑(min (top + last) (count - 1))) ∧
      ∃ left right, Comment.Points s.lines p.lines (top + first) left right ∧
        (top + last ≤ count - 1 →
          s.recordOf s.lines c (Comment.clean s.language? c.text) p =
            .ok (s.recordAt c p ⟨(↑(top + first), ↑(top + last)), (↑left, ↑right)⟩)) := by
  obtain ⟨places, hplaces, hparagraphs⟩ :=
    Comment.exists_paragraphs s.language? (Comment.clean s.language? c.text)
  rw [hparagraphs] at hp
  obtain ⟨⟨top', bottom'⟩, hplace, rfl⟩ := List.mem_map.mp hp
  have hrun := (hplaces.mem_iff _ _).mp hplace
  obtain ⟨i, -, -, -, hlocate, hlow, left, right, hpoints, hspan⟩ := Comment.recoverSpan?_eq hrun
    (Comment.map_trim_lines_paragraphAt hrun (s.not_mem_cleanedRows c)) h.stands
  rw [Nat.add_assoc] at hlow hspan
  have hle := Nat.le_add_right i (bottom' - top')
  have hinside : min bottom (count - 1) < s.lines.length :=
    Nat.lt_of_le_of_lt (Nat.min_le_left _ _) h.inside
  -- The paragraph was located above row `bottom`, so that only the cut to `count` rows can bite.
  refine ⟨i, i + (bottom' - top'), hlocate, ?_, left, right, hpoints, fun hcount => ?_⟩
  · obtain ⟨columns, hcolumns⟩ := Comment.exists_recoverSpan? hlocate hle h.rows hinside
    have hend : min (top + (i + (bottom' - top'))) (min bottom (count - 1)) =
        min (top + (i + (bottom' - top'))) (count - 1) := by omega
    have hord : min (top + i) (min bottom (count - 1)) ≤
        min (top + (i + (bottom' - top'))) (count - 1) := by omega
    rw [hend] at hcolumns
    exact ⟨_, recordOf_eq hord hcolumns, rfl⟩
  · have hlow' : top + (i + (bottom' - top')) ≤ min bottom (count - 1) :=
      Nat.le_min.mpr ⟨hlow, hcount⟩
    exact recordOf_eq (Nat.add_le_add_left hle top) (hspan c _ h.rows hlow' hinside)

/-- The record of a paragraph moves with its source just where the row at which the paragraph was
located to end stays, moved, among the first `count` rows. -/
theorem recordOf_moved_iff {c' : Capture} {k : Nat} (hk : 1 ≤ k) (hcount : 0 < count)
    (h : c.StandsCut s top bottom count)
    (h' : c'.StandsCut (s.moved k) (top + k) (bottom + k) count)
    (htext : c'.text = c.text) (hcontext : c'.context = c.context)
    (hp : p ∈ Comment.paragraphs s.language? (Comment.clean s.language? c.text)) :
    (∃ r, s.recordOf s.lines c (Comment.clean s.language? c.text) p = .ok r ∧
      (s.moved k).recordOf (s.moved k).lines c' (Comment.clean s.language? c.text) p =
        .ok (r.moved k)) ↔
      top + (Comment.locateRows (s.cleanedRows c) p.lines).2 + k < count := by
  have hp' : p ∈ Comment.paragraphs (s.moved k).language?
      (Comment.clean (s.moved k).language? c'.text) := htext ▸ hp
  have hrows : (s.moved k).cleanedRows c' = s.cleanedRows c :=
    congrArg (fun text => Text.lines (Comment.clean s.language? text)) htext
  obtain ⟨first, last, hlocate, ⟨r, hr, hend⟩, left, right, hpoints, hrecord⟩ :=
    exists_recordOf h hp
  obtain ⟨first', last', hlocate', ⟨r', hr', hend'⟩, left', right', hpoints', hrecord'⟩ :=
    exists_recordOf h' hp'
  -- Both runs clean the same text, and locate the paragraph at the same rows of it.
  rw [hrows, hlocate] at hlocate'
  cases hlocate'
  rw [Nat.add_right_comm top k first] at hpoints' hrecord'
  rw [Nat.add_right_comm top k last] at hend' hrecord'
  obtain ⟨rfl, rfl⟩ := hpoints'.unique (hpoints.moved k)
  rw [htext] at hr' hrecord'
  rw [hlocate]
  constructor
  · rintro ⟨moved, hmoved, hmoved'⟩
    cases hr.symm.trans hmoved
    cases hr'.symm.trans hmoved'
    -- Two rows cut to the same last row do not differ by `k`, so neither was cut.
    have hsum : r.rows.2 + k = ((min (top + last + k) (count - 1) : Nat) : Int) := hend'
    rw [hend] at hsum
    omega
  · intro hlt
    have hshift : (s.moved k).recordAt c' p
        ⟨(↑(top + first + k), ↑(top + last + k)), (↑left', ↑right')⟩ =
        (s.recordAt c p ⟨(↑(top + first), ↑(top + last)), (↑left', ↑right')⟩).moved k := by
      rw [recordAt, hcontext]
      rfl
    refine ⟨_, hrecord (by omega), ?_⟩
    rw [← hshift]
    exact hrecord' (by omega)

theorem length_of_recordsOf {lines : List Text} {records : List Record}
    (h : s.recordsOf lines c = .ok records) :
    records.length = (Comment.paragraphs s.language? (Comment.clean s.language? c.text)).length :=
  (Sequence.mapM_eq_ok.mp h).length_eq.symm

theorem recordsOf_moved_iff {c' : Capture} {k : Nat} (hk : 1 ≤ k) (hcount : 0 < count)
    (h : c.StandsCut s top bottom count)
    (h' : c'.StandsCut (s.moved k) (top + k) (bottom + k) count)
    (htext : c'.text = c.text) (hcontext : c'.context = c.context) :
    (∃ records, s.recordsOf s.lines c = .ok records ∧
      (s.moved k).recordsOf (s.moved k).lines c' = .ok (records.map (.moved k))) ↔
      ∀ p ∈ Comment.paragraphs s.language? (Comment.clean s.language? c.text),
        top + (Comment.locateRows (s.cleanedRows c) p.lines).2 + k < count := by
  rw [recordsOf, recordsOf, htext]
  refine Sequence.exists_mapM_map_iff.trans (forall₂_congr fun p hp => ?_)
  exact recordOf_moved_iff hk hcount h h' htext hcontext hp

end Source

/-! ## Nodes that are held in both places -/

namespace SyntaxTree

/-- The rows at which the paragraphs of a comment are located to end. -/
def paragraphEnds (language : Language) (t : SyntaxTree) : List Nat :=
  let cleaned := Comment.clean (some language) t.ownText
  (Comment.paragraphs (some language) cleaned).map fun p =>
    t.label.start.row + (Comment.locateRows cleaned.lines p.lines).2

/-- The bytes at hand hold the comment where it is and `k` rows further down, and have the rows at
which its paragraphs end, moved. -/
structure HeldMoved (language : Language) (k : Nat) (source : Bytes) (t : SyntaxTree) : Prop where
  here : t.HeldBy source
  moved : (t.moved k).HeldBy source
  rows : ∀ row ∈ t.paragraphEnds language, row + k < rowCount source

variable {language : Language} {k : Nat} {t : SyntaxTree} {source : Bytes} {context : Context}

theorem ownText_moved (k : Nat) (t : SyntaxTree) : (t.moved k).ownText = t.ownText := by
  rw [ownText, label_moved]
  rfl

theorem text_moved (k : Nat) (t : SyntaxTree) : (t.moved k).label.text = t.label.text := by
  rw [label_moved]
  rfl

theorem forall_heldBy_moved_iff :
    (∀ u ∈ (t.moved k).selection language, u.2.focus.HeldBy (t.moved k).label.text) ↔
      ∀ u ∈ t.selection language, (u.2.focus.moved k).HeldBy t.label.text := by
  rw [selection_moved, List.forall_mem_map, text_moved]
  rfl

theorem TakenFrom.standsCut {s : Source} {c : Capture} (h : TakenFrom c source t context)
    (ht : t.StandsIn s.text) (htext : c.text = t.ownText) :
    c.StandsCut s t.label.start.row (Constructs.lastRow t) (rowCount source) := by
  obtain ⟨hstands, -, hinside⟩ := ht.standsFrom
  refine ⟨?_, hinside, h.rows⟩
  rw [← htext] at hstands
  exact hstands.within (Comment.clean_within s.language? c.text)

end SyntaxTree

/-! ## Extraction -/

theorem Language.withGrammar_of_named {label : Text} {language : Language}
    (hnamed : named? label = some language) (hgrammar : language.hasGrammar = true) :
    withGrammar label = .ok language := by
  rw [withGrammar, hnamed, Option.filter_some, if_pos hgrammar]

namespace Source

variable {s : Source} {language : Language} {t : SyntaxTree} {k : Nat} {grammar : Grammar}
  {settings : Settings} {records : List Record}

/-- The source is of a language with a grammar, and not too large for it. -/
structure Parsed (s : Source) (settings : Settings) (language : Language) : Prop where
  named : s.language? = some language
  grammar : language.hasGrammar = true
  small : (s.size : Int) ≤ settings.maxFileSize

/-- The outcome of the parser is all that counts for a source that is parsed. -/
theorem Parsed.recordsByGrammar_eq (h : s.Parsed settings language) :
    s.recordsByGrammar grammar settings =
      match grammar language s.text with
      | .tree t => s.treeCaptures t >>= s.buildRecords
      | .nothing => .error (.noTree s.label)
      | .timedOut => .error (.parseTimeout s.label settings.parseTimeout)
      | .refused reason => .error (.parserFailed s.label reason)
      | .broken reason => .error (.wrongType reason) := by
  have hwith := Language.withGrammar_of_named h.named h.grammar
  have hsmall : ¬ (s.size : Int) > settings.maxFileSize := Int.not_lt.mpr h.small
  simp only [recordsByGrammar, Grammar.parse, hwith, hsmall, bind, Except.bind, if_false]
  cases grammar language s.text <;> rfl

theorem Parsed.treeCaptures_eq (h : s.Parsed settings language) (t : SyntaxTree) :
    s.treeCaptures t = match t.captures? language with
      | some captures => .ok captures
      | none => .error .outOfRange := by
  rw [treeCaptures, h.named]
  rfl

theorem extract_eq_ok_iff :
    s.extract grammar settings = ([], .ok records) ↔
      s.recordsByGrammar grammar settings = .ok records := by
  rw [extract]
  cases s.recordsByGrammar grammar settings with
  | ok found => simp only [Prod.mk.injEq, true_and]
  | error f =>
      -- A failure that is not done without stays one, and doing without leaves a note.
      cases hnote : s.fallbackNote? f with
      | none => simp only [hnote, Prod.mk.injEq, true_and]
      | some note => simp only [hnote, Prod.mk.injEq, List.cons_ne_nil, false_and, reduceCtorEq]

theorem recordsByGrammar_eq_ok_iff (hlanguage : s.language? = some language)
    (hgrammar : language.hasGrammar = true) (hsize : (s.size : Int) ≤ settings.maxFileSize)
    (hparse : grammar language s.text = .tree t) :
    s.recordsByGrammar grammar settings = .ok records ↔
      ∃ captures, t.captures? language = some captures ∧ s.buildRecords captures = .ok records := by
  have hparsed : s.Parsed settings language := ⟨hlanguage, hgrammar, hsize⟩
  rw [hparsed.recordsByGrammar_eq, hparse]
  simp only [hparsed.treeCaptures_eq, Sequence.bind_eq_ok]
  cases t.captures? language with
  | none => simp only [reduceCtorEq, false_and]
  | some captures => simp only [Except.ok.injEq, Option.some.injEq]

theorem recordsOf_node_moved_iff {source : Bytes} {context : Context} {c c' : Capture}
    (hlanguage : s.language? = some language) (hk : 1 ≤ k) (ht : t.StandsIn s.text)
    (htext : c.text = t.ownText) (htaken : SyntaxTree.TakenFrom c source t context)
    (htext' : c'.text = (t.moved k).ownText)
    (htaken' : SyntaxTree.TakenFrom c' source (t.moved k) context) :
    (∃ records, s.recordsOf s.lines c = .ok records ∧
      (s.moved k).recordsOf (s.moved k).lines c' = .ok (records.map (.moved k))) ↔
      ∀ row ∈ t.paragraphEnds language, row + k < SyntaxTree.rowCount source := by
  have hstands := htaken.standsCut ht htext
  have hstands' := htaken'.standsCut (s := s.moved k) (ht.moved k) htext'
  rw [SyntaxTree.label_moved, Constructs.lastRow_moved] at hstands'
  rw [SyntaxTree.ownText_moved] at htext'
  rw [recordsOf_moved_iff hk (SyntaxTree.rowCount_pos source) hstands hstands'
    (htext'.trans htext.symm) (htaken'.context.trans htaken.context.symm),
    SyntaxTree.paragraphEnds, List.forall_mem_map, cleanedRows, htext, hlanguage]

theorem exists_buildRecords_moved_iff (hlanguage : s.language? = some language) (hk : 1 ≤ k)
    (ht : t.ConsistentWith s.text)
    (hhere : ∀ u ∈ t.selection language, u.2.focus.HeldBy t.label.text)
    (hmoved : ∀ u ∈ (t.moved k).selection language, u.2.focus.HeldBy (t.moved k).label.text) :
    (∃ records,
      (∃ captures, t.captures? language = some captures ∧ s.buildRecords captures = .ok records) ∧
      ∃ captures, (t.moved k).captures? language = some captures ∧
        (s.moved k).buildRecords captures = .ok (records.map (.moved k))) ↔
      ∀ u ∈ t.selection language, ∀ row ∈ u.2.focus.paragraphEnds language,
        row + k < SyntaxTree.rowCount t.label.text := by
  obtain ⟨captures, hcaptures, hown⟩ := SyntaxTree.exists_captures? hhere
  obtain ⟨captures', hcaptures', hown'⟩ := SyntaxTree.exists_captures? hmoved
  rw [SyntaxTree.selection_moved, List.forall₂_map_left_iff, SyntaxTree.text_moved] at hown'
  -- Each node gives one capture in either run.
  obtain ⟨pairs, rfl, rfl, hpairs⟩ := Sequence.exists_pairs_of_forall₂ hown hown'
  have hflat : (∃ records, s.buildRecords (pairs.map Prod.fst) = .ok records ∧
      (s.moved k).buildRecords (pairs.map Prod.snd) = .ok (records.map (.moved k))) ↔
      ∀ u ∈ t.selection language, ∀ row ∈ u.2.focus.paragraphEnds language,
        row + k < SyntaxTree.rowCount t.label.text := by
    rw [buildRecords, buildRecords, List.mapM_map, List.mapM_map, Sequence.exists_flatten_mapM_iff]
    · refine (Sequence.forall_mem_iff_of_forall₂ hpairs fun u hu cc hc => ?_).symm
      obtain ⟨⟨htext, htaken⟩, htext', htaken'⟩ := hc
      have hnode : u.2.focus.StandsIn s.text := ht u.2 (SyntaxTree.mem_cursors_of_mem_selection hu)
      rw [SyntaxTree.movedChoice, Cursor.context_moved] at htaken'
      exact (recordsOf_node_moved_iff hlanguage hk hnode htext htaken htext' htaken').symm
    · intro cc hcc group group' hgroup hgroup'
      obtain ⟨u, -, ⟨htext, -⟩, htext', -⟩ := Sequence.of_mem_right hpairs hcc
      have hsame : cc.2.text = cc.1.text := by
        rw [htext, htext']
        exact SyntaxTree.ownText_moved k u.2.focus
      rw [length_of_recordsOf hgroup, length_of_recordsOf hgroup', hsame]
      rfl
  rw [← hflat, hcaptures, hcaptures']
  simp only [Option.some.injEq, exists_eq_left']

/-- Empty rows in front of a source only shift the rows of its records, and every capture says what
stands at its node, exactly where the bytes of the root hold all comments in both places. -/
theorem extract_moved_iff (hlanguage : s.language? = some language)
    (hgrammar : language.hasGrammar = true) (hk : 1 ≤ k)
    (hsize : ((s.size + k : Nat) : Int) ≤ settings.maxFileSize) (ht : t.ConsistentWith s.text)
    (hparse : grammar language s.text = .tree t)
    (hparse' : grammar language (s.moved k).text = .tree (t.moved k)) :
    (∃ records, s.extract grammar settings = ([], .ok records) ∧
      (s.moved k).extract grammar settings = ([], .ok (records.map (.moved k))) ∧
      t.CapturesOwnTexts language ∧ (t.moved k).CapturesOwnTexts language) ↔
      ∀ u ∈ t.selection language, u.2.focus.HeldMoved language k t.label.text := by
  have hsmall : (s.size : Int) ≤ settings.maxFileSize := by omega
  have hsmall' : ((s.moved k).size : Int) ≤ settings.maxFileSize := s.size_moved k ▸ hsize
  simp only [extract_eq_ok_iff, recordsByGrammar_eq_ok_iff hlanguage hgrammar hsmall hparse,
    recordsByGrammar_eq_ok_iff (s := s.moved k) hlanguage hgrammar hsmall' hparse',
    SyntaxTree.capturesOwnTexts_iff]
  constructor
  · -- Every capture has its own text, so both runs go through the same paragraphs.
    rintro ⟨records, hrecords, hrecords', hhere, hmoved⟩ u hu
    have hrows := (exists_buildRecords_moved_iff hlanguage hk ht hhere hmoved).mp
      ⟨records, hrecords, hrecords'⟩
    exact ⟨hhere u hu, SyntaxTree.forall_heldBy_moved_iff.mp hmoved u hu, hrows u hu⟩
  · intro h
    have hhere : ∀ u ∈ t.selection language, u.2.focus.HeldBy t.label.text :=
      fun u hu => (h u hu).here
    have hmoved := SyntaxTree.forall_heldBy_moved_iff.mpr fun u hu => (h u hu).moved
    obtain ⟨records, hrecords, hrecords'⟩ :=
      (exists_buildRecords_moved_iff hlanguage hk ht hhere hmoved).mpr fun u hu => (h u hu).rows
    exact ⟨records, hrecords, hrecords', hhere, hmoved⟩

def scriptOf (text : Text) : Source := ⟨"a.py", "python", text⟩

def smallFiles : Settings := { (default : Settings) with maxFileSize := 100 }

/-- A comment, and a string that holds its text once more six bytes further on. -/
def copied : Source := scriptOf "#a\n'''#a\n\n\n\n\n'''"

def copiedTree : SyntaxTree :=
  .nodeAt copied.text "module" 0 16 [
    .nodeAt copied.text "comment" 0 2 [],
    .nodeAt copied.text "expression_statement" 3 16 [.nodeAt copied.text "string" 3 16 []]]

/-- The grammar that makes of a text the tree, and of any other the tree moved. -/
def treesOf (s : Source) (t : SyntaxTree) (k : Nat) : Grammar := fun _ text =>
  if text = s.text then .tree t else .tree (t.moved k)

set_option maxRecDepth 10000 in
theorem extract_moved_iff_copied :
    copied.language? = some .python ∧ Language.hasGrammar .python = true ∧ 1 ≤ 6 ∧
    ((copied.size + 6 : Nat) : Int) ≤ smallFiles.maxFileSize ∧
    copiedTree.ConsistentWith copied.text ∧
    (∀ u ∈ copiedTree.selection .python,
      u.2.focus.HeldMoved .python 6 copiedTree.label.text) ∧
    ∃ records, copied.extract (treesOf copied copiedTree 6) smallFiles = ([], .ok records) ∧
      (copied.moved 6).extract (treesOf copied copiedTree 6) smallFiles =
        ([], .ok (records.map (.moved 6))) ∧
      copiedTree.CapturesOwnTexts .python ∧ (copiedTree.moved 6).CapturesOwnTexts .python := by
  have hconsistent : copiedTree.ConsistentWith copied.text := by
    refine List.forall_mem_cons.mpr ⟨SyntaxTree.standsIn_nodeAt (by decide) (by decide), ?_⟩
    refine List.forall_mem_cons.mpr ⟨SyntaxTree.standsIn_nodeAt (by decide) (by decide), ?_⟩
    refine List.forall_mem_cons.mpr ⟨SyntaxTree.standsIn_nodeAt (by decide) (by decide), ?_⟩
    exact List.forall_mem_singleton.mpr (SyntaxTree.standsIn_nodeAt (by decide) (by decide))
  have hheld : ∀ u ∈ copiedTree.selection .python,
      u.2.focus.HeldMoved .python 6 copiedTree.label.text := by
    refine List.forall_mem_singleton.mpr ⟨⟨?_, ?_, ?_⟩, ⟨?_, ?_, ?_⟩, ?_⟩
    all_goals decide
  exact ⟨rfl, rfl, by decide, by decide, hconsistent, hheld,
    (extract_moved_iff rfl rfl (by decide) (by decide) hconsistent rfl rfl).mpr hheld⟩

def single : Source := scriptOf "# a"

def singleTree : SyntaxTree :=
  .nodeAt single.text "module" 0 3 [.nodeAt single.text "comment" 0 3 []]

set_option maxRecDepth 10000 in
/-- One empty row in front of a single comment, and its row is looked for below the only row of the
root. -/
theorem single_moved_outOfRange :
    single.language? = some .python ∧ singleTree.ConsistentWith single.text ∧
    ((single.size + 1 : Nat) : Int) ≤ smallFiles.maxFileSize ∧
    treesOf single singleTree 1 .python single.text = .tree singleTree ∧
    treesOf single singleTree 1 .python (single.moved 1).text = .tree (singleTree.moved 1) ∧
    single.extract (treesOf single singleTree 1) smallFiles =
      ([], .ok [⟨0, "python", "a", [], [], .module, [], (0, 0), (2, 3), []⟩]) ∧
    (single.moved 1).extract (treesOf single singleTree 1) smallFiles =
      ([], .error .outOfRange) := by
  refine ⟨rfl, ?_, by decide, rfl, rfl, rfl, rfl⟩
  refine List.forall_mem_cons.mpr ⟨SyntaxTree.standsIn_nodeAt (by decide) (by decide), ?_⟩
  exact List.forall_mem_singleton.mpr (SyntaxTree.standsIn_nodeAt (by decide) (by decide))

end Source

end Marginalia
