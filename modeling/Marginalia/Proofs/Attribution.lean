import Marginalia.Proofs.Cursors

/-!
What a docstring belongs to. A captured docstring gets the level of the construct whose body it
opens, with the name of the class if that is a class, and else with that of the nearest class around
it.
-/

namespace Marginalia

namespace SyntaxTree

/-- The kinds of the nodes that define a class or a function, with or without decorators. -/
def definitionKinds : List Text :=
  ["class_definition", "function_definition", "decorated_definition"]

/-- The first class among some nodes has that name; the name is empty if none is a class. -/
inductive NearestClass : List SyntaxTree → Text → Prop where
  | here {t : SyntaxTree} {above : List SyntaxTree} :
      t.kind = "class_definition" → NearestClass (t :: above) t.givenName
  | above {t : SyntaxTree} {above : List SyntaxTree} {name : Text} :
      t.kind ≠ "class_definition" → NearestClass above name → NearestClass (t :: above) name
  | nowhere : NearestClass [] []

theorem exists_nearestClass (above : List SyntaxTree) : ∃ name, NearestClass above name := by
  induction above with
  | nil => exact ⟨[], .nowhere⟩
  | cons t above ih =>
      by_cases hkind : t.kind = "class_definition"
      · exact ⟨t.givenName, .here hkind⟩
      · obtain ⟨name, hname⟩ := ih
        exact ⟨name, .above hkind hname⟩

end SyntaxTree

/-! ## Constructs with docstrings -/

namespace Cursor

/-- The string stands in the statement that a body begins with. -/
structure Opens (d statement body : Cursor) : Prop where
  string : d.kind = "string"
  parent : d.parent? = some statement
  shape : statement.kind = "expression_statement"
  first : statement.before = []
  inBody : statement.parent? = some body

/-- The node is the block that a definition has for its body. -/
structure IsBlockOf (body owner : Cursor) : Prop where
  block : body.kind = "block"
  field : body.focus.label.field = some ("body" : Text)
  parent : body.parent? = some owner

/-- The string is the docstring of a construct of the tree, of which that is the level and the name
of the class. -/
inductive IsDocstringWith (t : SyntaxTree) (d : Cursor) : Context → Prop where
  | module {statement : Cursor} : t.kind = "module" → d.Opens statement (root t) →
      IsDocstringWith t d ⟨.module, []⟩
  | «class» {statement body owner : Cursor} : d.Opens statement body → body.IsBlockOf owner →
      owner.kind = "class_definition" →
      IsDocstringWith t d ⟨.class, owner.focus.givenName⟩
  | method {statement body owner : Cursor} {name : Text} : d.Opens statement body →
      body.IsBlockOf owner → owner.kind = "function_definition" →
      SyntaxTree.NearestClass owner.ancestors name → IsDocstringWith t d ⟨.method, name⟩

variable {t : SyntaxTree} {d : Cursor}

/-- Where no module is inside another node, each captured docstring belongs to something. -/
theorem exists_isDocstringWith (hmodule : ∀ c ∈ t.cursors, c.kind = "module" → c = root t)
    (hd : d ∈ t.cursors) (h : d.isDocstring = true) : ∃ context, IsDocstringWith t d context := by
  obtain ⟨statement, ⟨hstring, hparent, hshape, -, body, hbody, hplace⟩, hfirst⟩ :=
    isDocstring_iff.mp h
  have hopens : d.Opens statement body := ⟨hstring, hparent, hshape, hfirst, hbody⟩
  cases hplace with
  | module hkind =>
      have hmem := SyntaxTree.parent_mem_cursors (SyntaxTree.parent_mem_cursors hd hparent) hbody
      obtain rfl := hmodule body hmem hkind
      exact ⟨_, .module hkind hopens⟩
  | declaration hblock hfield howner hkind =>
      rename_i owner
      have hblockOf : body.IsBlockOf owner := ⟨hblock, hfield, howner⟩
      rcases hkind with hkind | hkind
      · obtain ⟨name, hname⟩ := SyntaxTree.exists_nearestClass owner.ancestors
        exact ⟨_, .method hopens hblockOf hkind hname⟩
      · exact ⟨_, .class hopens hblockOf hkind⟩

end Cursor

/-! ## Their context -/

namespace Constructs

variable {k : Constructs} (hk : Language.python.constructs? = some k)
include hk

theorem classes_python : k.classes = [("class_definition" : Text)] := by cases hk; rfl

theorem methods_python : k.methods = [("function_definition" : Text)] := by cases hk; rfl

theorem wrappers_python : k.wrappers = [("decorated_definition" : Text)] := by cases hk; rfl

theorem declarationLevel?_class {t : SyntaxTree} (h : t.kind = "class_definition") :
    k.declarationLevel? t = some .class := by
  refine declarationLevel?_of_mem_classes ?_ ?_
  · rw [h, wrappers_python hk]
    decide
  · rw [h, classes_python hk]
    decide

theorem declarationLevel?_function {t : SyntaxTree} (h : t.kind = "function_definition") :
    k.declarationLevel? t = some .method := by
  refine declarationLevel?_of_mem_methods ?_ ?_ ?_
  · rw [h, wrappers_python hk]
    decide
  · rw [h, classes_python hk]
    decide
  · rw [h, methods_python hk]
    decide

theorem declarationLevel?_eq_none {t : SyntaxTree} {kind : Text} (h : t.kind = kind)
    (hkind : kind ∉ SyntaxTree.definitionKinds) : k.declarationLevel? t = none := by
  subst h
  simp only [SyntaxTree.definitionKinds, List.mem_cons, not_or] at hkind
  obtain ⟨hclass, hfunction, hdecorated, -⟩ := hkind
  refine declarationLevel?_of_not_mem ?_ ?_ ?_
  · rwa [wrappers_python hk, List.mem_singleton]
  · rwa [classes_python hk, List.mem_singleton]
  · rwa [methods_python hk, List.mem_singleton]

theorem className_of_nearestClass {c : Cursor} {name : Text}
    (h : SyntaxTree.NearestClass c.ancestors name) : k.className c = name := by
  rw [className, classes_python hk]
  generalize c.ancestors = above at h
  induction h with
  | here hkind =>
      rw [List.find?_cons_of_pos (by simpa using hkind)]
      rfl
  | above hkind _ ih =>
      rw [List.find?_cons_of_neg (by simpa using hkind)]
      exact ih
  | nowhere => rfl

end Constructs

namespace Cursor

variable {t : SyntaxTree} {d statement body owner : Cursor} {context : Context} {k : Constructs}

theorem Opens.ancestors (h : d.Opens statement body) :
    d.ancestors = statement.focus :: body.focus :: body.ancestors := by
  rw [ancestors_of_parent? h.parent, ancestors_of_parent? h.inBody]

theorem Opens.nearestClass (h : d.Opens statement body) (h' : body.IsBlockOf owner) {name : Text}
    (hname : SyntaxTree.NearestClass (owner.focus :: owner.ancestors) name) :
    SyntaxTree.NearestClass d.ancestors name := by
  rw [h.ancestors, ancestors_of_parent? h'.parent]
  exact .above (h.shape.trans_ne (by decide)) (.above (h'.block.trans_ne (by decide)) hname)

theorem Opens.docstring (hk : Language.python.constructs? = some k) (h : d.Opens statement body) :
    k.docstring = some d.kind := by
  rw [h.string]
  cases hk
  rfl

theorem Opens.opensBlock (hk : Language.python.constructs? = some k)
    (h : d.Opens statement body) (h' : body.IsBlockOf owner) :
    k.OpensBlock d statement body owner := by
  refine ⟨h.docstring hk, h.parent, h.shape, h.inBody, h'.block, h'.parent, fun u hu => ?_⟩
  rw [h.first] at hu
  cases hu

theorem Opens.docstringLevel?_root (h : d.Opens statement (root t)) :
    k.docstringLevel? d = none := by
  rw [Option.eq_none_iff_forall_ne_some]
  intro l hl
  obtain ⟨statement', body', owner, hopens, -⟩ := Constructs.docstringLevel?_eq_some_iff.mp hl
  cases h.parent.symm.trans hopens.parent
  cases h.inBody.symm.trans hopens.inBody
  cases hopens.owned

theorem Opens.enclosingLevel?_root (hk : Language.python.constructs? = some k)
    (h : d.Opens statement (root t)) (hkind : t.kind = "module") : k.enclosingLevel? d = none := by
  rw [Constructs.enclosingLevel?, h.ancestors, List.findSome?_eq_none_iff]
  refine List.forall_mem_cons.mpr ⟨?_, List.forall_mem_singleton.mpr ?_⟩
  · exact Constructs.declarationLevel?_eq_none hk h.shape (by decide)
  · exact Constructs.declarationLevel?_eq_none hk hkind (by decide)

theorem Opens.adjacentLevel?_eq_none (hk : Language.python.constructs? = some k)
    (h : d.Opens statement body)
    (hdefinitions : ∀ u ∈ statement.focus.children, u.kind ∉ SyntaxTree.definitionKinds) :
    k.adjacentLevel? d = none := by
  rw [Option.eq_none_iff_forall_ne_some]
  intro l hl
  obtain ⟨sibling, hsibling, hl⟩ := Option.bind_eq_some_iff.mp hl
  -- What stands next to the string is in its statement too.
  have hmem : sibling ∈ statement.focus.children := by
    rw [children_of_parent? h.parent]
    exact List.mem_append_right _ (List.mem_cons_of_mem _ (List.mem_of_head? hsibling))
  rw [Constructs.declarationLevel?_eq_none hk rfl (hdefinitions _ hmem), ite_self] at hl
  cases hl

theorem Opens.headsModule (hk : Language.python.constructs? = some k)
    (h : d.Opens statement (root t)) (hkind : t.kind = "module") : k.headsModule d = true := by
  have hmodule : k.module = some ("module" : Text) := by cases hk; rfl
  have hstatement : k.docstringStatement? d = some statement :=
    Constructs.docstringStatement?_eq_some_iff.mpr ⟨h.docstring hk, h.parent, h.shape⟩
  have hroot : (root t).kind = "module" := hkind
  simp [Constructs.headsModule, Constructs.opensParent, hstatement, hmodule, h.inBody, hroot,
    h.first]

theorem Opens.level_root (hk : Language.python.constructs? = some k)
    (h : d.Opens statement (root t)) (hkind : t.kind = "module")
    (hdefinitions : ∀ u ∈ statement.focus.children, u.kind ∉ SyntaxTree.definitionKinds) :
    k.level d = .module := by
  rw [Constructs.level, h.docstringLevel?_root, h.enclosingLevel?_root hk hkind,
    h.adjacentLevel?_eq_none hk hdefinitions, h.headsModule hk hkind]
  rfl

theorem Opens.nearestClass_root (h : d.Opens statement (root t)) (hkind : t.kind = "module") :
    SyntaxTree.NearestClass d.ancestors [] := by
  rw [h.ancestors]
  exact .above (h.shape.trans_ne (by decide)) (.above (hkind.trans_ne (by decide)) .nowhere)

theorem context_of_isDocstringWith
    (hdefinitions : ∀ c ∈ t.cursors, c.kind = "expression_statement" →
      ∀ u ∈ c.focus.children, u.kind ∉ SyntaxTree.definitionKinds)
    (hd : d ∈ t.cursors) (h : IsDocstringWith t d context) :
    d.context (some .python) = context := by
  obtain ⟨k, hk⟩ : ∃ k, Language.python.constructs? = some k := ⟨_, rfl⟩
  have hcontext : d.context (some .python) = ⟨k.level d, k.className d⟩ := by cases hk; rfl
  rw [hcontext]
  cases h with
  | module hkind hopens =>
      have hmem := SyntaxTree.parent_mem_cursors hd hopens.parent
      rw [hopens.level_root hk hkind (hdefinitions _ hmem hopens.shape),
        Constructs.className_of_nearestClass hk (hopens.nearestClass_root hkind)]
  | «class» hopens hblock hkind =>
      have hlevel := Constructs.docstringLevel?_eq_some_iff.mpr
        ⟨_, _, _, hopens.opensBlock hk hblock, Constructs.declarationLevel?_class hk hkind⟩
      rw [Constructs.level_of_docstringLevel? hlevel,
        Constructs.className_of_nearestClass hk (hopens.nearestClass hblock (.here hkind))]
  | method hopens hblock hkind hname =>
      have hlevel := Constructs.docstringLevel?_eq_some_iff.mpr
        ⟨_, _, _, hopens.opensBlock hk hblock, Constructs.declarationLevel?_function hk hkind⟩
      rw [Constructs.level_of_docstringLevel? hlevel, Constructs.className_of_nearestClass hk
        (hopens.nearestClass hblock (.above (hkind.trans_ne (by decide)) hname))]

/-- The context of a captured docstring says that it belongs to the module if its statement begins
the module, to a class if it begins the body of that class, which then gives the name, and to a
method if it begins the body of a function. Only the root may be a module, and no statement may
have a definition in it. -/
theorem context_python_iff (hmodule : ∀ c ∈ t.cursors, c.kind = "module" → c = root t)
    (hdefinitions : ∀ c ∈ t.cursors, c.kind = "expression_statement" →
      ∀ u ∈ c.focus.children, u.kind ∉ SyntaxTree.definitionKinds)
    (hd : d ∈ t.cursors) (hcaptured : Language.python.captureKind? d = some .docstring)
    (context : Context) :
    d.context (some .python) = context ↔ IsDocstringWith t d context := by
  constructor
  · rintro rfl
    obtain ⟨context, h⟩ :=
      exists_isDocstringWith hmodule hd (SyntaxTree.captureKind?_eq_docstring_iff.mp hcaptured)
    rwa [context_of_isDocstringWith hdefinitions hd h]
  · exact context_of_isDocstringWith hdefinitions hd

end Cursor

namespace SyntaxTree

/-- A function with a decorator and a docstring, in a class. -/
def decorated : Text := "class A:\n @p\n def f():\n  'd'"

def decoratedTree : SyntaxTree :=
  nodeAt decorated "module" 0 28 [
    nodeAt decorated "class_definition" 0 28 [
      (nodeAt decorated "identifier" 6 7 []).playing "name",
      (nodeAt decorated "block" 10 28 [
        nodeAt decorated "decorated_definition" 10 28 [
          nodeAt decorated "decorator" 10 12 [],
          (nodeAt decorated "function_definition" 14 28 [
            (nodeAt decorated "identifier" 18 19 []).playing "name",
            (nodeAt decorated "block" 25 28 [
              nodeAt decorated "expression_statement" 25 28 [
                nodeAt decorated "string" 25 28 []]]).playing "body"]).playing "definition"]]
      ).playing "body"]]

theorem context_python_iff_decorated :
    (∀ c ∈ decoratedTree.cursors, c.kind = "module" → c = Cursor.root decoratedTree) ∧
    (∀ c ∈ decoratedTree.cursors, c.kind = "expression_statement" →
      ∀ u ∈ c.focus.children, u.kind ∉ definitionKinds) ∧
    ∃ d ∈ decoratedTree.cursors, Language.python.captureKind? d = some .docstring ∧
      d.focus.range = (25, 28) ∧ d.context (some .python) = ⟨.method, "A"⟩ := by
  have hothers : ∀ c ∈ decoratedTree.cursors.tail, c.kind ≠ "module" := by decide
  have hmodule : ∀ c ∈ decoratedTree.cursors, c.kind = "module" → c = Cursor.root decoratedTree :=
    List.forall_mem_cons.mpr ⟨fun _ => rfl, fun c hc h => absurd h (hothers c hc)⟩
  have hdefinitions : ∀ c ∈ decoratedTree.cursors, c.kind = "expression_statement" →
      ∀ u ∈ c.focus.children, u.kind ∉ definitionKinds := by decide
  obtain ⟨d, hd⟩ : ∃ d, decoratedTree.cursors[10]? = some d := ⟨_, rfl⟩
  have hmem := List.mem_of_getElem? hd
  cases hd
  refine ⟨hmodule, hdefinitions, _, hmem, rfl, rfl,
    (Cursor.context_python_iff hmodule hdefinitions hmem rfl _).mpr ?_⟩
  refine .method ⟨rfl, rfl, rfl, rfl, rfl⟩ ⟨rfl, rfl, rfl⟩ rfl ?_
  exact .above (by decide) (.above (by decide) (.here rfl))

end SyntaxTree

end Marginalia
