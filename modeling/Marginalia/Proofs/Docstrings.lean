import Marginalia.Proofs.LeadingRows

/-!
Docstrings. What a string documents is told by skipping the comments before its statement, while a
string is captured as a docstring only where nothing at all stands before it.
-/

namespace Marginalia

/-! ## Strings that document -/

namespace Cursor

/-- The node is the module, or the body of a function or a class. -/
inductive IsBody (body : Cursor) : Prop where
  | module : body.kind = "module" → IsBody body
  | declaration {owner : Cursor} : body.kind = "block" → body.focus.label.field = some ("body" : Text) →
      body.parent? = some owner →
      owner.kind = "function_definition" ∨ owner.kind = "class_definition" → IsBody body

/-- The string makes up the first statement of a body, comments aside. -/
structure Documents (d statement : Cursor) : Prop where
  string : d.kind = "string"
  parent : d.parent? = some statement
  shape : statement.kind = "expression_statement"
  first : ∀ t ∈ statement.before, t.kind = "comment"
  body : ∃ body, statement.parent? = some body ∧ body.IsBody

variable {d statement : Cursor}

theorem opensBody_iff :
    statement.opensBody = true ↔ statement.kind = "expression_statement" ∧ statement.before = [] ∧
      ∃ body, statement.parent? = some body ∧ body.IsBody := by
  unfold opensBody
  simp only [Bool.and_eq_true, beq_iff_eq, List.isEmpty_iff, and_assoc]
  refine and_congr_right fun _ => and_congr_right fun _ => ?_
  cases statement.parent? with
  | none => simp
  | some body =>
      simp only [Option.some.injEq, exists_eq_left']
      constructor
      · intro h
        rcases Bool.or_eq_true_iff.mp h with hmodule | hblock
        · exact .module (by simpa using hmodule)
        · cases howner : body.parent? with
          | none => simp [howner] at hblock
          | some owner =>
              simp only [howner, Bool.and_eq_true, Bool.or_eq_true, beq_iff_eq] at hblock
              exact .declaration hblock.1.1 hblock.1.2 howner hblock.2
      · intro h
        cases h with
        | module hmodule => simp [hmodule]
        | declaration hblock hfield howner hkind => simpa [hblock, hfield, howner] using hkind

theorem isDocstring_iff :
    d.isDocstring = true ↔ ∃ statement, d.Documents statement ∧ statement.before = [] := by
  unfold isDocstring
  constructor
  · intro h
    obtain ⟨hstring, hopens⟩ := Bool.and_eq_true_iff.mp h
    cases hparent : d.parent? with
    | none => simp [hparent] at hopens
    | some statement =>
        rw [hparent] at hopens
        obtain ⟨hkind, hbefore, hbody⟩ := opensBody_iff.mp hopens
        refine ⟨statement, ⟨by simpa using hstring, hparent, hkind, ?_, hbody⟩, hbefore⟩
        simp [hbefore]
  · intro h
    obtain ⟨statement, hdocuments, hbefore⟩ := h
    have hopens := opensBody_iff.mpr ⟨hdocuments.shape, hbefore, hdocuments.body⟩
    simp [hdocuments.string, hdocuments.parent, hopens]

theorem isSome_declarationLevel? {k : Constructs} (hk : Language.python.constructs? = some k)
    {t : SyntaxTree} (h : t.kind = "function_definition" ∨ t.kind = "class_definition") :
    (k.declarationLevel? t).isSome = true := by
  cases hk
  rcases h with h | h
  · simp [Constructs.declarationLevel?, Constructs.plainLevel?, h]
  · simp [Constructs.declarationLevel?, Constructs.plainLevel?, h]

/-- Whatever a string documents, its level is looked for as that of a docstring. -/
theorem Documents.isDocumentation (h : d.Documents statement) {k : Constructs}
    (hk : Language.python.constructs? = some k) :
    (k.docstringLevel? d).isSome = true ∨ k.headsModule d = true := by
  have hdocstring : k.docstring = some ("string" : Text) := by cases hk; rfl
  have hcomments : k.comments = [("comment" : Text)] := by cases hk; rfl
  have hmodule : k.module = some ("module" : Text) := by cases hk; rfl
  have hstatement : k.docstringStatement? d = some statement := by
    simp [Constructs.docstringStatement?, hdocstring, h.string, h.parent, h.shape]
  have hopens : k.opensParent statement = true := by
    unfold Constructs.opensParent
    rw [List.all_eq_true]
    intro t ht
    simp [Constructs.isComment, hcomments, h.first t ht]
  obtain ⟨body, hparent, hbody⟩ := h.body
  cases hbody with
  | module hkind =>
      right
      simp [Constructs.headsModule, hstatement, hparent, hmodule, hkind, hopens]
  | declaration hblock _ howner hkind =>
      left
      simp [Constructs.docstringLevel?, hstatement, hparent, howner, hblock, hopens,
        isSome_declarationLevel? hk hkind]

end Cursor

/-! ## Strings that are captured -/

namespace SyntaxTree

variable {t : SyntaxTree} {range : Nat × Nat} {source : Bytes} {context : Context}

/-- A node of a Python tree is a comment, a docstring, or not captured. -/
theorem captureKind?_cases (c : Cursor) :
    (c.kind = "comment" ∧ c.isDocstring = false ∧ Language.python.captureKind? c = some .line) ∨
    (c.kind ≠ "comment" ∧ c.isDocstring = true ∧
      Language.python.captureKind? c = some .docstring) ∨
    (c.kind ≠ "comment" ∧ c.isDocstring = false ∧ Language.python.captureKind? c = none) := by
  unfold Language.captureKind?
  by_cases hcomment : c.kind = "comment"
  · left
    refine ⟨hcomment, ?_, if_pos (beq_iff_eq.mpr hcomment)⟩
    rw [Bool.eq_false_iff]
    intro hdocstring
    obtain ⟨statement, hdocuments, -⟩ := Cursor.isDocstring_iff.mp hdocstring
    exact absurd (hcomment.symm.trans hdocuments.string) (by decide)
  · have hkind : ¬ (c.kind == "comment") = true := fun h => hcomment (beq_iff_eq.mp h)
    right
    cases hdocstring : c.isDocstring with
    | true =>
        left
        exact ⟨hcomment, rfl, by rw [if_neg hkind, if_pos rfl]⟩
    | false =>
        right
        exact ⟨hcomment, rfl, by rw [if_neg hkind, if_neg Bool.false_ne_true]⟩

theorem captureKind?_eq_line_iff {c : Cursor} :
    Language.python.captureKind? c = some .line ↔ c.kind = "comment" := by
  rcases captureKind?_cases c with ⟨hkind, -, h⟩ | ⟨hkind, -, h⟩ | ⟨hkind, -, h⟩
  · exact iff_of_true h hkind
  · exact iff_of_false (by rw [h]; decide) hkind
  · exact iff_of_false (by rw [h]; decide) hkind

theorem captureKind?_eq_docstring_iff {c : Cursor} :
    Language.python.captureKind? c = some .docstring ↔ c.isDocstring = true := by
  rcases captureKind?_cases c with ⟨-, hdocstring, h⟩ | ⟨-, hdocstring, h⟩ | ⟨-, hdocstring, h⟩
  · simp [h, hdocstring]
  · simp [h, hdocstring]
  · simp [h, hdocstring]

/-- A docstring is selected for its range unless a comment is. -/
theorem exists_docstring_selected_iff :
    (∃ u ∈ t.selection .python, u.1 = .docstring ∧ u.2.focus.range = range) ↔
      (∃ d ∈ t.cursors, d.isDocstring = true ∧ d.focus.range = range) ∧
      ∀ c ∈ t.cursors, c.kind = "comment" → c.focus.range ≠ range := by
  simp only [selection, Sequence.mem_sort, Sequence.mem_distinctBy_iff]
  constructor
  · intro h
    obtain ⟨u, hfirst, hkind, rfl⟩ := h
    constructor
    · obtain ⟨kind, -, hu⟩ := List.mem_flatMap.mp (List.mem_of_find?_eq_some hfirst)
      obtain ⟨rfl, hcursor, hcaptured⟩ := mem_ofKind_iff.mp hu
      rw [hkind] at hcaptured
      exact ⟨u.2, hcursor, captureKind?_eq_docstring_iff.mp hcaptured, rfl⟩
    · -- Comments come first, so one with that range would have been selected.
      intro c hc hcomment hrange
      have hline : (CaptureKind.line, c) ∈ t.ofKind .python .line :=
        mem_ofKind_iff.mpr ⟨rfl, hc, captureKind?_eq_line_iff.mpr hcomment⟩
      rw [List.flatMap_cons, List.find?_append] at hfirst
      cases hfound : (t.ofKind .python .line).find? (·.2.focus.range == u.2.focus.range) with
      | none =>
          have hne := List.find?_eq_none.mp hfound _ hline
          exact hne (beq_iff_eq.mpr hrange)
      | some v =>
          rw [hfound] at hfirst
          cases hfirst
          have hv := (mem_ofKind_iff.mp (List.mem_of_find?_eq_some hfound)).1
          rw [hkind] at hv
          cases hv
  · intro h
    obtain ⟨⟨d, hd, hdocstring, hrange⟩, hcomments⟩ := h
    have hfound : (CaptureKind.docstring, d) ∈
        [CaptureKind.line, .block, .docstring].flatMap (t.ofKind .python) :=
      List.mem_flatMap.mpr ⟨.docstring, by simp, mem_ofKind_iff.mpr
        ⟨rfl, hd, captureKind?_eq_docstring_iff.mpr hdocstring⟩⟩
    have hany : (([CaptureKind.line, .block, .docstring].flatMap (t.ofKind .python)).find?
        (·.2.focus.range == range)).isSome = true :=
      List.find?_isSome.mpr ⟨_, hfound, beq_iff_eq.mpr hrange⟩
    obtain ⟨u, hu⟩ := Option.isSome_iff_exists.mp hany
    have hsame : u.2.focus.range = range := by simpa using List.find?_some hu
    refine ⟨u, hsame ▸ hu, ?_, hsame⟩
    obtain ⟨kind, -, hmem⟩ := List.mem_flatMap.mp (List.mem_of_find?_eq_some hu)
    obtain ⟨rfl, hcursor, hcaptured⟩ := mem_ofKind_iff.mp hmem
    cases hkind : u.1 with
    | line =>
        rw [hkind] at hcaptured
        exact absurd hsame (hcomments u.2 hcursor (captureKind?_eq_line_iff.mp hcaptured))
    | block =>
        rw [hkind] at hcaptured
        rcases captureKind?_cases u.2 with ⟨-, -, h⟩ | ⟨-, -, h⟩ | ⟨-, -, h⟩
        · simp [h] at hcaptured
        · simp [h] at hcaptured
        · simp [h] at hcaptured
    | docstring => rfl

theorem captureOf?_names {kind : CaptureKind} {c : Capture}
    (h : captureOf? source kind t.label.start t.label.stop context = some c) :
    c.kind = kind ∧ c.offsets = t.range := by
  rw [captureOf?_eq] at h
  obtain ⟨place, -, h⟩ := Option.bind_eq_some_iff.mp h
  obtain ⟨firstLine, -, h⟩ := Option.bind_eq_some_iff.mp h
  obtain ⟨lastLine, -, h⟩ := Option.bind_eq_some_iff.mp h
  cases h
  exact ⟨rfl, rfl⟩

/-- A string that documents is captured as a docstring exactly where its statement has nothing at
all before it, unless a comment has its range, while its level is always looked for as that of a
docstring. -/
theorem exists_docstring_iff {captures : List Capture}
    (h : t.captures? .python = some captures) :
    (∀ range, (∃ c ∈ captures, c.kind = .docstring ∧ c.offsets = range) ↔
      (∃ d ∈ t.cursors, d.focus.range = range ∧
        ∃ statement, d.Documents statement ∧ statement.before = []) ∧
      ∀ c ∈ t.cursors, c.kind = "comment" → c.focus.range ≠ range) ∧
    ∀ d ∈ t.cursors, ∀ statement, d.Documents statement →
      ∀ k, Language.python.constructs? = some k →
        (k.docstringLevel? d).isSome = true ∨ k.headsModule d = true := by
  constructor
  · intro range
    have hcaptured : (∃ c ∈ captures, c.kind = .docstring ∧ c.offsets = range) ↔
        ∃ u ∈ t.selection .python, u.1 = .docstring ∧ u.2.focus.range = range := by
      have hall := Sequence.mapM_eq_some.mp h
      constructor
      · intro hc
        obtain ⟨c, hc, hkind, hrange⟩ := hc
        obtain ⟨u, hu, hmade⟩ := Sequence.of_mem_right hall hc
        obtain ⟨hkind', hrange'⟩ := captureOf?_names hmade
        exact ⟨u, hu, hkind'.symm.trans hkind, hrange'.symm.trans hrange⟩
      · intro hu
        obtain ⟨u, hu, hkind, hrange⟩ := hu
        obtain ⟨c, hc, hmade⟩ := Sequence.exists_of_mem_left hall hu
        obtain ⟨hkind', hrange'⟩ := captureOf?_names hmade
        exact ⟨c, hc, hkind'.trans hkind, hrange'.trans hrange⟩
    rw [hcaptured, exists_docstring_selected_iff]
    simp only [Cursor.isDocstring_iff, and_comm]
  · intro d _ statement hdocuments k hk
    exact hdocuments.isDocumentation hk

end SyntaxTree

namespace Source

/-- A docstring and nothing else. -/
def documented : Source := scriptOf "'''doc'''"

def documentedTree : SyntaxTree :=
  .nodeAt documented.text "module" 0 9 [
    .nodeAt documented.text "expression_statement" 0 9 [.nodeAt documented.text "string" 0 9 []]]

set_option maxRecDepth 10000 in
theorem exists_docstring_iff_documented :
    ∃ captures, documentedTree.captures? .python = some captures ∧
      ∃ c ∈ captures, c.kind = .docstring ∧ c.offsets = (0, 9) := by
  obtain ⟨captures, hcaptures⟩ : ∃ captures, documentedTree.captures? .python = some captures :=
    Option.isSome_iff_exists.mp rfl
  refine ⟨captures, hcaptures, ((SyntaxTree.exists_docstring_iff hcaptures).1 (0, 9)).mpr ⟨?_, ?_⟩⟩
  · refine ⟨_, List.mem_of_getElem? (i := 2) rfl, rfl, _, ⟨rfl, rfl, rfl, ?_, _, rfl, ?_⟩, rfl⟩
    · intro t ht
      cases ht
    · exact .module rfl
  · refine List.forall_mem_cons.mpr ⟨fun h => absurd h (by decide), ?_⟩
    refine List.forall_mem_cons.mpr ⟨fun h => absurd h (by decide), ?_⟩
    exact List.forall_mem_singleton.mpr fun h => absurd h (by decide)

/-- A docstring below a comment. -/
def commented : Source := scriptOf "# c\n'''doc'''"

def commentedTree : SyntaxTree :=
  .nodeAt commented.text "module" 0 13 [
    .nodeAt commented.text "comment" 0 3 [],
    .nodeAt commented.text "expression_statement" 4 13 [.nodeAt commented.text "string" 4 13 []]]

set_option maxRecDepth 10000 in
/-- The string documents the module, and its context would be found so, but it is not captured. -/
theorem commented_not_captured :
    (∃ d ∈ commentedTree.cursors, ∃ statement, d.Documents statement ∧
      d.focus.range = (4, 13) ∧ d.context (some .python) = ⟨.module, []⟩) ∧
    (∃ captures, commentedTree.captures? .python = some captures ∧
      captures.map (fun c => (c.kind, c.offsets)) = [(.line, (0, 3))]) ∧
    commented.extract (fun _ _ => .tree commentedTree) smallFiles =
      ([], .ok [⟨0, "python", "c", [], [], .module, [], (0, 0), (2, 3), []⟩]) := by
  refine ⟨?_, ⟨_, rfl, rfl⟩, rfl⟩
  refine ⟨_, List.mem_of_getElem? (i := 3) rfl, _, ⟨rfl, rfl, rfl, ?_, _, rfl, ?_⟩, rfl, rfl⟩
  · exact List.forall_mem_singleton.mpr rfl
  · exact .module rfl

end Source

end Marginalia
