import Marginalia.Proofs.Selection

/-!
The two ways to the comments of a text. Where the nodes that are captured cover the same bytes as
the comment tokens, both ways capture the same texts at the same rows and columns, and their records
differ by what the tree tells about the code around a comment.
-/

namespace Marginalia

/-! ## Places in bytes -/

namespace Text

variable {t : Text} {offset n : Nat}

/-- The range of bytes between two places, told by their offsets. -/
def byteRange (t : Text) (place : Nat × Nat) : Nat × Nat :=
  (utf8Length (t.take place.1), utf8Length (t.take place.2))

theorem column_positionAt_pos (h : 0 < t.columnAt offset) : 0 < (t.positionAt offset).column := by
  by_contra hzero
  have hnil := utf8Length_eq_zero (Nat.eq_zero_of_not_pos hzero)
  rw [columnAt, hnil] at h
  exact absurd h (Nat.lt_irrefl 0)

end Text

/-! ## The order of tokens -/

namespace Comment

variable {language : Language} {text : Text} {place : Nat × Nat}

theorem tokensFrom_ascending (language : Language) (offset covered : Nat) (text : Text) :
    (∀ place ∈ tokensFrom language offset covered text, offset + covered ≤ place.1) ∧
      (tokensFrom language offset covered text).Pairwise fun a b => a.2 ≤ b.1 := by
  induction text generalizing offset covered with
  | nil =>
      rw [tokensFrom]
      exact ⟨fun place h => absurd h List.not_mem_nil, .nil⟩
  | cons c rest ih =>
      cases covered with
      | succ covered =>
          obtain ⟨hle, hpairs⟩ := ih (offset + 1) covered
          rw [tokensFrom]
          exact ⟨fun place h => by have := hle place h; omega, hpairs⟩
      | zero =>
          rw [tokensFrom]
          split
          · rename_i n _
            obtain ⟨hle, hpairs⟩ := ih (offset + 1) n
            constructor
            · intro place h
              rcases List.mem_cons.mp h with rfl | h
              · exact Nat.le_refl _
              · have := hle place h
                omega
            · refine List.pairwise_cons.mpr ⟨fun place h => ?_, hpairs⟩
              have := hle place h
              dsimp only
              omega
          · obtain ⟨hle, hpairs⟩ := ih (offset + 1) 0
            exact ⟨fun place h => by have := hle place h; omega, hpairs⟩

theorem bounds_of_mem_tokens (h : place ∈ tokens language text) :
    place.1 < place.2 ∧ place.2 ≤ text.length := by
  obtain ⟨before, tail, n, rfl, hstart, hstop, hlength⟩ := exists_of_mem_tokensFrom h
  obtain ⟨front, c, rest, rfl, rfl, -⟩ := endsInRow_of_tokenLength? hlength
  simp only [List.length_append, List.length_cons]
  omega

theorem pairwise_byteRange (language : Language) (text : Text) :
    ((tokens language text).map text.byteRange).Pairwise
      (SyntaxTree.rangeBefore · · = true) := by
  have hascending := (tokensFrom_ascending language 0 0 text).2
  rw [List.pairwise_map]
  refine List.Pairwise.imp_of_mem (fun {a b} ha hb hab => ?_) hascending
  obtain ⟨ha, -⟩ := bounds_of_mem_tokens ha
  obtain ⟨hb, hb'⟩ := bounds_of_mem_tokens hb
  have hlt : Text.utf8Length (text.take a.1) < Text.utf8Length (text.take b.1) :=
    Text.utf8Length_take_lt (by omega) (by omega)
  simp [SyntaxTree.rangeBefore, Text.byteRange, hlt]

end Comment

namespace SyntaxTree

variable {t : SyntaxTree} {text : Text} {language : Language}

/-! ## Nodes within nodes -/

/-- The children of a node lie in the range of the node, and so do theirs in turn. -/
inductive Nested : SyntaxTree → Prop where
  | node {label : NodeLabel} {children : List SyntaxTree} :
      (∀ u ∈ children, label.start.offset ≤ u.label.start.offset ∧
        u.label.stop.offset ≤ label.stop.offset) →
      (∀ u ∈ children, Nested u) → Nested (node label children)

theorem exists_of_mem_cursorsAmong {label : NodeLabel} {frames : List Frame}
    {before children : List SyntaxTree} {c : Cursor}
    (h : c ∈ cursorsAmong label frames before children) :
    ∃ u ∈ children, ∃ frames', c ∈ cursorsIn frames' u := by
  induction children generalizing before with
  | nil =>
      rw [cursorsAmong] at h
      cases h
  | cons u after ih =>
      rw [cursorsAmong] at h
      rcases List.mem_append.mp h with hu | hafter
      · exact ⟨u, List.mem_cons_self, _, hu⟩
      · obtain ⟨v, hv, hc⟩ := ih hafter
        exact ⟨v, List.mem_cons_of_mem u hv, hc⟩

theorem Nested.stop_le (h : t.Nested) {frames : List Frame} {c : Cursor}
    (hc : c ∈ cursorsIn frames t) : c.focus.label.stop.offset ≤ t.label.stop.offset := by
  induction h generalizing frames with
  | @node label children hwithin _ ih =>
      rw [cursorsIn] at hc
      rcases List.mem_cons.mp hc with rfl | hc
      · exact Nat.le_refl _
      · obtain ⟨u, hu, frames', hc⟩ := exists_of_mem_cursorsAmong hc
        exact Nat.le_trans (ih u hu hc) (hwithin u hu).2

/-! ## The ranges that are selected -/

/-- The captured nodes cover the same bytes as the comment tokens. -/
def CoversTokens (language : Language) (t : SyntaxTree) (text : Text) : Prop :=
  ∀ range, (∃ c ∈ t.cursors, (language.captureKind? c).isSome = true ∧ c.focus.range = range) ↔
    ∃ place ∈ Comment.tokens language text, text.byteRange place = range

theorem coversTokens_of_eq
    (h : ((t.cursors.filter fun c => (language.captureKind? c).isSome).map fun c => c.focus.range) =
      (Comment.tokens language text).map text.byteRange) : t.CoversTokens language text := by
  intro range
  have hmem : range ∈ (t.cursors.filter fun c => (language.captureKind? c).isSome).map
      (fun c => c.focus.range) ↔ range ∈ (Comment.tokens language text).map text.byteRange := by
    rw [h]
  simpa only [List.mem_map, List.mem_filter, and_assoc] using hmem

theorem CoversTokens.map_range (h : t.CoversTokens language text) :
    (t.selection language).map (fun u => u.2.focus.range) =
      (Comment.tokens language text).map text.byteRange := by
  apply (pairwise_selection language t).eq_of_mem_iff (Comment.pairwise_byteRange language text)
  intro range
  rw [mem_ranges_selection_iff, h range, List.mem_map]

end SyntaxTree

/-- Both captures tell the same text, rows and columns; nothing is known about the code around the
second one. -/
structure Capture.SeenAs (c plain : Capture) : Prop where
  text : c.text = plain.text
  rows : c.rows = plain.rows
  columns : c.columns = plain.columns
  context : plain.context = .unknown

namespace SyntaxTree

variable {s : Source} {u : SyntaxTree} {place : Nat × Nat} {n : Nat}

theorem StandsIn.places_eq (h : u.StandsIn s.text) (hplace : place ∈ Comment.tokens language s.text)
    (hrange : u.range = s.text.byteRange place) :
    u.label.start = s.text.positionAt place.1 ∧ u.label.stop = s.text.positionAt place.2 := by
  obtain ⟨start, stop, hord, hin, hstart, hstop, -⟩ := h
  obtain ⟨hlt, hle⟩ := Comment.bounds_of_mem_tokens hplace
  rw [range, hstart, hstop] at hrange
  obtain ⟨hfirst, hlast⟩ := Prod.mk.inj hrange
  obtain rfl := Text.utf8Length_take_inj (Nat.le_trans hord hin) (by omega) hfirst
  obtain rfl := Text.utf8Length_take_inj hin hle hlast
  exact ⟨hstart, hstop⟩

/-- A node that covers a token is captured as the token is, where the bytes at hand are those of
enough of the text. -/
theorem exists_captureOf?_seenAs (h : u.StandsIn s.text)
    (hplace : place ∈ Comment.tokens language s.text) (hrange : u.range = s.text.byteRange place)
    (hn : u.label.stop.offset ≤ Text.utf8Length (s.text.take n)) (kind : CaptureKind)
    (context : Context) :
    ∃ c, captureOf? (Text.encode (s.text.take n)) kind u.label.start u.label.stop context = some c ∧
      c.SeenAs (Comment.tokenCapture language s.text place) := by
  obtain ⟨hlt, hle⟩ := Comment.bounds_of_mem_tokens hplace
  obtain ⟨hstart, hstop⟩ := h.places_eq hplace hrange
  have hstands := Comment.tokenCapture_standsAt s language hplace
  rw [hstop] at hn
  have hend : place.2 ≤ n := Text.le_of_utf8Length_take_le hle hn
  have hcolumn : 0 < s.text.columnAt place.2 := by
    have hlast : ((s.text.columnAt (place.2 - 1) + 1 : Nat) : Int) = s.text.columnAt place.2 :=
      congrArg Prod.snd hstands.columns
    omega
  have hlast : s.text.rowEnd place.1 place.2 = place.2 := if_neg fun hends =>
    absurd hends.1 (Nat.ne_of_gt (Text.column_positionAt_pos hcolumn))
  have hcapture := captureOf?_encode_take hstart hstop (Nat.le_of_lt hlt) hle hend kind context
  rw [hlast] at hcapture
  exact ⟨_, hcapture, rfl, hstands.rows.symm, hstands.columns.symm, rfl⟩

end SyntaxTree

/-! ## Records but for the code around them -/

/-- The record without what the code around it tells. -/
def Record.withoutContext (r : Record) : Record := { r with level := .inline, className := [] }

namespace Source

variable {s : Source} {c plain : Capture} {lines : List Text} {records : List Record}

theorem recordOf_seenAs (h : c.SeenAs plain) (cleaned paragraph : Text) :
    Record.withoutContext <$> s.recordOf lines c cleaned paragraph =
      s.recordOf lines plain cleaned paragraph := by
  have hspan : Comment.recoverSpan? c cleaned paragraph lines =
      Comment.recoverSpan? plain cleaned paragraph lines := by
    rw [Comment.recoverSpan?, Comment.recoverSpan?, h.rows, h.columns]
  rw [recordOf, recordOf, hspan, h.context]
  cases Comment.recoverSpan? plain cleaned paragraph lines with
  | none => rfl
  | some span =>
      simp only [Record.checkRows]
      split <;> rfl

theorem exists_recordsOf_seenAs (h : c.SeenAs plain)
    (hplain : s.recordsOf lines plain = .ok records) :
    ∃ own, s.recordsOf lines c = .ok own ∧
      s.recordsOf lines plain = .ok (own.map Record.withoutContext) := by
  rw [recordsOf] at hplain
  rw [recordsOf, recordsOf, h.text, Sequence.exists_mapM_map_iff]
  intro p hp
  obtain ⟨r, -, hr⟩ := Sequence.exists_of_mem_left (Sequence.mapM_eq_ok.mp hplain) hp
  rw [← recordOf_seenAs h] at hr
  obtain ⟨own, hown, rfl⟩ := Sequence.map_eq_ok.mp hr
  refine ⟨own, hown, ?_⟩
  rw [← recordOf_seenAs h, hown]
  rfl

theorem buildRecords_cons {captures : List Capture} {own rest : List Record}
    (hown : s.recordsOf s.lines c = .ok own) (hrest : s.buildRecords captures = .ok rest) :
    s.buildRecords (c :: captures) = .ok (own ++ rest) := by
  obtain ⟨groups, hgroups, rfl⟩ := Sequence.map_eq_ok.mp hrest
  have hcons : (c :: captures).mapM (s.recordsOf s.lines) = .ok (own :: groups) :=
    Sequence.mapM_eq_ok.mpr (.cons hown (Sequence.mapM_eq_ok.mp hgroups))
  exact Sequence.map_eq_ok.mpr ⟨own :: groups, hcons, rfl⟩

theorem exists_buildRecords_seenAs {captures plains : List Capture}
    (h : List.Forall₂ Capture.SeenAs captures plains) (hplains : ∀ c ∈ plains, c.Faithful s) :
    ∃ records, s.buildRecords captures = .ok records ∧
      s.buildRecords plains = .ok (records.map Record.withoutContext) := by
  induction h with
  | nil => exact ⟨[], rfl, rfl⟩
  | cons hc _ ih =>
      obtain ⟨⟨start, stop, hstands⟩, hrest⟩ := List.forall_mem_cons.mp hplains
      obtain ⟨-, group, -, hgroup, -⟩ := exists_recordsOf hstands
      obtain ⟨own, hown, hplain⟩ := exists_recordsOf_seenAs hc hgroup
      obtain ⟨records, hrecords, hplainRest⟩ := ih hrest
      refine ⟨own ++ records, buildRecords_cons hown hrecords, ?_⟩
      rw [List.map_append]
      exact buildRecords_cons hplain hplainRest

/-! ## Both ways -/

variable {language : Language} {t : SyntaxTree} {grammar : Grammar} {settings : Settings}

theorem exists_captures?_seenAs (hlanguage : s.language? = some language)
    (ht : t.ConsistentWith s.text) (hnested : t.Nested) (hroot : t.label.start.offset = 0)
    (hcovers : t.CoversTokens language s.text) :
    ∃ captures, t.captures? language = some captures ∧
      List.Forall₂ Capture.SeenAs captures (Comment.tokenCaptures s) := by
  have htokens : Comment.tokenCaptures s =
      (Comment.tokens language s.text).map (Comment.tokenCapture language s.text) := by
    rw [Comment.tokenCaptures, show Language.named? s.label = some language from hlanguage]
  obtain ⟨n, htext, hstop⟩ :=
    (ht (Cursor.root t) (SyntaxTree.root_mem_cursors t)).exists_text_eq hroot
  have hstep : List.Forall₂ (fun u place => ∃ c,
      SyntaxTree.captureOf? t.label.text u.1 u.2.focus.label.start u.2.focus.label.stop
        (u.2.context (some language)) = some c ∧
        c.SeenAs (Comment.tokenCapture language s.text place))
      (t.selection language) (Comment.tokens language s.text) := by
    refine (Sequence.forall₂_of_map_eq hcovers.map_range).imp ?_
    rintro u place ⟨hu, hplace, hrange⟩
    have hcursor := SyntaxTree.mem_cursors_of_mem_selection hu
    have hend : u.2.focus.label.stop.offset ≤ Text.utf8Length (s.text.take n) :=
      hstop ▸ hnested.stop_le hcursor
    rw [show t.label.text = _ from htext]
    exact SyntaxTree.exists_captureOf?_seenAs (ht u.2 hcursor) hplace hrange hend _ _
  obtain ⟨captures, hcaptures, hseen⟩ := Sequence.exists_forall₂_between hstep
  refine ⟨captures, Sequence.mapM_eq_some.mpr hcaptures, ?_⟩
  rw [htokens, List.forall₂_map_right_iff]
  exact hseen

/-- Where the nodes that a tree captures cover the same bytes as the comment tokens of the text, the
records of the tree are those of the tokens, in number and order and in everything but what the tree
tells of the code around a comment. -/
theorem exists_extract_agrees (hlanguage : s.language? = some language)
    (hgrammar : language.hasGrammar = true) (hsize : (s.size : Int) ≤ settings.maxFileSize)
    (hparse : grammar language s.text = .tree t) (ht : t.ConsistentWith s.text)
    (hnested : t.Nested) (hroot : t.label.start.offset = 0)
    (hcovers : t.CoversTokens language s.text) :
    ∃ records, s.extract grammar settings = ([], .ok records) ∧
      s.recordsByTokens = .ok (records.map Record.withoutContext) := by
  obtain ⟨captures, hcaptures, hseen⟩ :=
    exists_captures?_seenAs hlanguage ht hnested hroot hcovers
  obtain ⟨records, hrecords, hplain⟩ :=
    exists_buildRecords_seenAs hseen fun c => Comment.faithful_of_mem_tokenCaptures
  refine ⟨records, extract_eq_ok_iff.mpr ?_, hplain⟩
  exact (recordsByGrammar_eq_ok_iff hlanguage hgrammar hsize hparse).mpr
    ⟨captures, hcaptures, hrecords⟩

/-- Two comments with wide characters in them and between them. -/
def umlauts : Source := ⟨"A.java", "java", "/* é\n 漢 */ é; // ü"⟩

def umlautTree : SyntaxTree :=
  .nodeAt umlauts.text "program" 0 18 [
    .nodeAt umlauts.text "block_comment" 0 10 [],
    .nodeAt umlauts.text "line_comment" 14 18 []]

set_option maxRecDepth 10000 in
theorem exists_extract_agrees_umlauts :
    umlauts.language? = some .java ∧ Language.hasGrammar .java = true ∧
    (umlauts.size : Int) ≤ smallFiles.maxFileSize ∧ umlautTree.ConsistentWith umlauts.text ∧
    umlautTree.Nested ∧ umlautTree.label.start.offset = 0 ∧
    umlautTree.CoversTokens .java umlauts.text ∧
    ∃ records, umlauts.extract (fun _ _ => .tree umlautTree) smallFiles = ([], .ok records) ∧
      umlauts.recordsByTokens = .ok (records.map Record.withoutContext) := by
  have hconsistent : umlautTree.ConsistentWith umlauts.text := by
    refine List.forall_mem_cons.mpr ⟨SyntaxTree.standsIn_nodeAt (by decide) (by decide), ?_⟩
    refine List.forall_mem_cons.mpr ⟨SyntaxTree.standsIn_nodeAt (by decide) (by decide), ?_⟩
    exact List.forall_mem_singleton.mpr (SyntaxTree.standsIn_nodeAt (by decide) (by decide))
  have hnested : umlautTree.Nested := by
    refine .node (List.forall_mem_cons.mpr ⟨by decide, ?_⟩) ?_
    · exact List.forall_mem_singleton.mpr (by decide)
    refine List.forall_mem_cons.mpr ⟨.node ?_ ?_, List.forall_mem_singleton.mpr (.node ?_ ?_)⟩
    all_goals exact fun u hu => absurd hu List.not_mem_nil
  have hcovers : umlautTree.CoversTokens .java umlauts.text :=
    SyntaxTree.coversTokens_of_eq (by decide)
  exact ⟨rfl, rfl, by decide, hconsistent, hnested, by decide, hcovers,
    exists_extract_agrees rfl rfl (by decide) rfl hconsistent hnested (by decide) hcovers⟩

end Source

end Marginalia
