import Marginalia.Proofs.Cursors

/-!
What surrounds a declaration has no say inside it. The nodes of a declaration have the same levels
wherever it stands, and the nodes of a class also have the same class names.
-/

namespace Marginalia

/-! ## The same nodes -/

namespace SyntaxTree

mutual

/-- The two trees have the same nodes with the same texts, in whatever places. The parts that they
play in their own parents may differ. -/
inductive SameNodes : SyntaxTree → SyntaxTree → Prop where
  | node {label label' : NodeLabel} {children children' : List SyntaxTree} :
      label.kind = label'.kind → label.text = label'.text → SameParts children children' →
      SameNodes (node label children) (node label' children')

/-- The trees of the two lists have the same nodes and play the same parts. -/
inductive SameParts : List SyntaxTree → List SyntaxTree → Prop where
  | nil : SameParts [] []
  | cons {t t' : SyntaxTree} {ts ts' : List SyntaxTree} : t.label.field = t'.label.field →
      SameNodes t t' → SameParts ts ts' → SameParts (t :: ts) (t' :: ts')

end

mutual

theorem SameNodes.symm {t t' : SyntaxTree} (h : SameNodes t t') : SameNodes t' t := by
  match h with
  | .node hkind htext hparts => exact .node hkind.symm htext.symm hparts.symm

theorem SameParts.symm {ts ts' : List SyntaxTree} (h : SameParts ts ts') : SameParts ts' ts := by
  match h with
  | .nil => exact .nil
  | .cons hfield ht hts => exact .cons hfield.symm ht.symm hts.symm

end

theorem SameParts.forall₂ {ts ts' : List SyntaxTree} (h : SameParts ts ts') :
    List.Forall₂ (fun u u' => u.label.field = u'.label.field ∧ SameNodes u u') ts ts' := by
  match h with
  | .nil => exact .nil
  | .cons hfield ht hts => exact .cons ⟨hfield, ht⟩ hts.forall₂

namespace SameNodes

variable {t t' : SyntaxTree}

theorem kind (h : SameNodes t t') : t.kind = t'.kind := by
  cases h
  assumption

theorem ownText (h : SameNodes t t') : t.ownText = t'.ownText := by
  cases h with
  | node _ htext _ => exact congrArg Bytes.decodeReplacing htext

theorem children (h : SameNodes t t') :
    List.Forall₂ (fun u u' => u.label.field = u'.label.field ∧ SameNodes u u')
      t.children t'.children := by
  cases h with
  | node _ _ hparts => exact hparts.forall₂

theorem bind_childBy? {α : Type} {g : SyntaxTree → Option α}
    (hg : ∀ u u', SameNodes u u' → g u = g u') (h : SameNodes t t') (field : Text) :
    (t.childBy? field).bind g = (t'.childBy? field).bind g := by
  have hchildren := h.children
  rw [childBy?, childBy?]
  generalize t.children = us, t'.children = us' at hchildren ⊢
  induction hchildren with
  | nil => rfl
  | cons hu _ ih =>
      obtain ⟨hfield, hsame⟩ := hu
      rw [List.find?_cons, List.find?_cons, hfield]
      split
      · exact hg _ _ hsame
      · exact ih

theorem givenName (h : SameNodes t t') : t.givenName = t'.givenName := by
  have hnames := h.bind_childBy? (g := some ∘ SyntaxTree.ownText)
    (fun u u' hu => congrArg some hu.ownText) "name"
  rw [SyntaxTree.givenName, SyntaxTree.givenName, Option.map_eq_bind, Option.map_eq_bind, hnames]

theorem declarationLevel? {k : Constructs} (h : SameNodes t t') :
    k.declarationLevel? t = k.declarationLevel? t' := by
  have hplain : ∀ u u', SameNodes u u' → k.plainLevel? u = k.plainLevel? u' := by
    intro u u' hu
    rw [Constructs.plainLevel?, hu.kind, Constructs.plainLevel?]
  rw [Constructs.declarationLevel?, h.kind, h.bind_childBy? hplain, hplain t t' h,
    Constructs.declarationLevel?]

end SameNodes

end SyntaxTree

/-! ## Nodes led to by one path -/

namespace Cursor

/-- One path leads to the first node from `d` and to the second from `d'`. -/
inductive Counterparts (d d' : Cursor) : Cursor → Cursor → Prop where
  | start : Counterparts d d' d d'
  | child {p p' c c' : Cursor} {i : Nat} : Counterparts d d' p p' → p.child? i = some c →
      p'.child? i = some c' → Counterparts d d' c c'

variable {d d' p p' c c' : Cursor} {i : Nat}

theorem Counterparts.symm (h : Counterparts d d' c c') : Counterparts d' d c' c := by
  induction h with
  | start => exact .start
  | child _ hc hc' ih => exact .child ih hc' hc

theorem sameNodes_child (h : p.focus.SameNodes p'.focus) (hc : p.child? i = some c)
    (hc' : p'.child? i = some c') : c.focus.SameNodes c'.focus := by
  obtain ⟨u, hfound, -, hsame⟩ := Sequence.getElem?_of_forall₂ h.children (getElem?_of_child? hc)
  cases (getElem?_of_child? hc').symm.trans hfound
  exact hsame

theorem exists_child?_of_sameNodes (h : p.focus.SameNodes p'.focus) (hc : p.child? i = some c) :
    ∃ c', p'.child? i = some c' := by
  obtain ⟨u, hfound, -⟩ := Sequence.getElem?_of_forall₂ h.children (getElem?_of_child? hc)
  exact exists_child?_of_getElem? hfound

theorem sameNodes_before (h : p.focus.SameNodes p'.focus) (hc : p.child? i = some c)
    (hc' : p'.child? i = some c') {u' : SyntaxTree} (hu' : u' ∈ c'.before) :
    ∃ u ∈ c.before, u.SameNodes u' := by
  rw [before_of_child? hc', List.mem_reverse] at hu'
  obtain ⟨u, hu, -, hsame⟩ := Sequence.of_mem_right (List.forall₂_take i h.children) hu'
  exact ⟨u, by rwa [before_of_child? hc, List.mem_reverse], hsame⟩

theorem Counterparts.sameNodes (hd : d.focus.SameNodes d'.focus) (h : Counterparts d d' c c') :
    c.focus.SameNodes c'.focus := by
  induction h with
  | start => exact hd
  | child _ hc hc' ih => exact sameNodes_child ih hc hc'

/-- Above a node that is not `d` itself the two still have counterparts. -/
theorem Counterparts.exists_parents (h : Counterparts d d' c c') (hkind : c.kind ≠ d.kind)
    (hparent : c.parent? = some p) :
    ∃ p' i, Counterparts d d' p p' ∧ p.child? i = some c ∧ p'.child? i = some c' ∧
      c'.parent? = some p' := by
  cases h with
  | start => exact absurd rfl hkind
  | @child q q' _ _ i hq hc hc' =>
      cases (parent?_of_child? hc).symm.trans hparent
      exact ⟨q', i, hq, hc, hc', parent?_of_child? hc'⟩

theorem exists_counterpart (hd : d.focus.SameNodes d'.focus) (h : Counterparts d d' p p')
    {path : List Nat} (hc : p.follow? path = some c) :
    ∃ c', p'.follow? path = some c' ∧ Counterparts d d' c c' := by
  induction path generalizing p p' with
  | nil =>
      cases hc
      exact ⟨p', rfl, h⟩
  | cons i path ih =>
      rw [follow?_cons] at hc
      obtain ⟨e, he, hc⟩ := Option.bind_eq_some_iff.mp hc
      obtain ⟨e', he'⟩ := exists_child?_of_sameNodes (h.sameNodes hd) he
      obtain ⟨c', hc', hparts⟩ := ih (.child h he he') hc
      refine ⟨c', ?_, hparts⟩
      rw [follow?_cons, he']
      exact hc'

end Cursor

/-! ## Levels and names inside a declaration -/

namespace Constructs

open Cursor

variable {k : Constructs} {d d' p p' c c' : Cursor} {i : Nat} {l : Level}

/-- Nodes of the kind declare something themselves, and are no part of a docstring's surroundings
below its owner. -/
structure Declares (k : Constructs) (kind : Text) : Prop where
  unwrapped : kind ∉ k.wrappers
  notString : k.docstring ≠ some kind
  notStatement : kind ≠ "expression_statement"
  notBlock : kind ≠ "block"

theorem declares_of_mem {language : Language} (hk : language.constructs? = some k) {kind : Text}
    (h : kind ∈ k.classes ∨ kind ∈ k.methods) : k.Declares kind := by
  have hall : ∀ kind ∈ k.classes ++ k.methods, kind ∉ k.wrappers ∧ k.docstring ≠ some kind ∧
      kind ≠ "expression_statement" ∧ kind ≠ "block" := by
    cases language with
    | java =>
        cases hk
        decide
    | python =>
        cases hk
        decide
    | pharo => cases hk
  obtain ⟨hwrappers, hstring, hstatement, hblock⟩ := hall kind (List.mem_append.mpr h)
  exact ⟨hwrappers, hstring, hstatement, hblock⟩

theorem Declares.exists_declarationLevel? {t : SyntaxTree} (hkind : k.Declares t.kind)
    (h : t.kind ∈ k.classes ∨ t.kind ∈ k.methods) : ∃ l, k.declarationLevel? t = some l := by
  by_cases hclasses : t.kind ∈ k.classes
  · exact ⟨_, declarationLevel?_of_mem_classes hkind.unwrapped hclasses⟩
  · exact ⟨_, declarationLevel?_of_mem_methods hkind.unwrapped hclasses
      (h.resolve_left hclasses)⟩

/-- The search for a declaration around a node ends at `d` at the latest. -/
theorem exists_enclosing_counterparts (hd : d.focus.SameNodes d'.focus)
    (hl : k.declarationLevel? d.focus = some l) (h : Counterparts d d' p p') :
    ∃ l, (k.declarationLevel? p.focus).or (k.enclosingLevel? p) = some l ∧
      (k.declarationLevel? p'.focus).or (k.enclosingLevel? p') = some l := by
  induction h with
  | start =>
      refine ⟨l, ?_, ?_⟩
      · rw [hl]
        rfl
      · rw [← hd.declarationLevel?, hl]
        rfl
  | @child p p' c c' i hp hc hc' ih =>
      -- The node comes first in the search from its children, and then its parent, as before.
      obtain ⟨l, hall, hall'⟩ := ih
      have hsame := (Counterparts.child hp hc hc').sameNodes hd
      rw [enclosingLevel?_of_child? hc, enclosingLevel?_of_child? hc',
        ← hsame.declarationLevel?, hall, hall']
      cases hown : k.declarationLevel? c.focus with
      | none => exact ⟨l, rfl, rfl⟩
      | some l' => exact ⟨l', rfl, rfl⟩

theorem docstringLevel?_counterparts (hd : d.focus.SameNodes d'.focus) (hkind : k.Declares d.kind)
    (h : Counterparts d d' c c') (hl : k.docstringLevel? c = some l) :
    k.docstringLevel? c' = some l := by
  obtain ⟨statement, body, owner, hopens, hl⟩ := docstringLevel?_eq_some_iff.mp hl
  -- By their kinds neither the string nor its statement nor the block is `d`, so that the owner is
  -- inside `d` as well, or `d` at last.
  have hstring : c.kind ≠ d.kind := by
    intro hsame
    exact hkind.notString (hsame ▸ hopens.docstring)
  obtain ⟨statement', _, hstatements, hc, hc', hparent'⟩ := h.exists_parents hstring hopens.parent
  obtain ⟨body', _, hbodies, hs, hs', hbody'⟩ :=
    hstatements.exists_parents (hopens.shape.trans_ne hkind.notStatement.symm) hopens.inBody
  obtain ⟨owner', _, howners, -, -, howner'⟩ :=
    hbodies.exists_parents (hopens.block.trans_ne hkind.notBlock.symm) hopens.owned
  refine docstringLevel?_eq_some_iff.mpr
    ⟨statement', body', owner', ⟨?_, hparent', ?_, hbody', ?_, howner', ?_⟩, ?_⟩
  · exact hopens.docstring.trans (congrArg some (h.sameNodes hd).kind)
  · exact (hstatements.sameNodes hd).kind.symm.trans hopens.shape
  · exact (hbodies.sameNodes hd).kind.symm.trans hopens.block
  · intro u' hu'
    obtain ⟨u, hu, hsame⟩ := sameNodes_before (hbodies.sameNodes hd) hs hs' hu'
    rw [isComment, ← hsame.kind]
    exact hopens.first u hu
  · exact (howners.sameNodes hd).declarationLevel?.symm.trans hl

theorem level_counterparts (hd : d.focus.SameNodes d'.focus)
    (hl : k.declarationLevel? d.focus = some l) (hkind : k.Declares d.kind)
    (hp : Counterparts d d' p p') (hc : p.child? i = some c) (hc' : p'.child? i = some c') :
    k.level c' = k.level c ∧ (k.level c = .class ∨ k.level c = .method) := by
  have hdocstring : k.docstringLevel? c' = k.docstringLevel? c := by
    apply Option.ext
    intro l
    have hsame : Counterparts d d' c c' := .child hp hc hc'
    have hkind' : k.Declares d'.kind := by rwa [Cursor.kind, ← hd.kind]
    constructor
    · exact docstringLevel?_counterparts hd.symm hkind' hsame.symm
    · exact docstringLevel?_counterparts hd hkind hsame
  obtain ⟨l', henclosing, henclosing'⟩ := exists_enclosing_counterparts hd hl hp
  rw [← enclosingLevel?_of_child? hc] at henclosing
  rw [← enclosingLevel?_of_child? hc'] at henclosing'
  cases hown : k.docstringLevel? c with
  | some l =>
      rw [level_of_docstringLevel? hown, level_of_docstringLevel? (hdocstring.trans hown)]
      exact ⟨rfl, class_or_method_of_docstringLevel? hown⟩
  | none =>
      rw [level_of_enclosingLevel? hown henclosing,
        level_of_enclosingLevel? (hdocstring.trans hown) henclosing']
      exact ⟨rfl, class_or_method_of_enclosingLevel? henclosing⟩

/-- The search for a class around a node inside the class `d` ends at `d` at the latest. -/
theorem className_counterparts (hd : d.focus.SameNodes d'.focus) (hkind : d.kind ∈ k.classes)
    (h : Counterparts d d' p p') (hc : p.child? i = some c) (hc' : p'.child? i = some c') :
    k.className c' = k.className c := by
  induction h generalizing c c' i with
  | start =>
      have hkind' : d'.kind ∈ k.classes := by rwa [Cursor.kind, ← hd.kind]
      rw [className_of_child? hc, className_of_child? hc', if_pos hkind, if_pos hkind',
        hd.givenName]
  | child hp hq hq' ih =>
      have hsame := (Counterparts.child hp hq hq').sameNodes hd
      rw [className_of_child? hc, className_of_child? hc', ih hq hq', hsame.givenName,
        Cursor.kind, Cursor.kind, hsame.kind]

/-- Two cursors on declarations with the same nodes, in whatever trees and places. To each node
inside the one there is a node inside the other with the same level, which is that of a class or a
method, and with the same class name if the declarations are classes. -/
theorem level_inside_declaration {language : Language} (hk : language.constructs? = some k)
    {path : List Nat} (hd : d.focus.SameNodes d'.focus)
    (hkind : d.kind ∈ k.classes ∨ d.kind ∈ k.methods) (hpath : path ≠ [])
    (hc : d.follow? path = some c) :
    ∃ c', d'.follow? path = some c' ∧ k.level c' = k.level c ∧
      (k.level c = .class ∨ k.level c = .method) ∧
      (d.kind ∈ k.classes → k.className c' = k.className c) := by
  obtain ⟨path, i, rfl⟩ := (List.eq_nil_or_concat path).resolve_left hpath
  rw [List.concat_eq_append, follow?_concat] at hc
  obtain ⟨p, hp, hc⟩ := Option.bind_eq_some_iff.mp hc
  obtain ⟨p', hp', hparents⟩ := exists_counterpart hd .start hp
  obtain ⟨c', hc'⟩ := exists_child?_of_sameNodes (hparents.sameNodes hd) hc
  have hdeclares : k.Declares d.kind := declares_of_mem hk hkind
  obtain ⟨l, hl⟩ := hdeclares.exists_declarationLevel? hkind
  obtain ⟨hlevel, hinside⟩ := level_counterparts hd hl hdeclares hparents hc hc'
  refine ⟨c', ?_, hlevel, hinside, fun hclass => className_counterparts hd hclass hparents hc hc'⟩
  rw [List.concat_eq_append, follow?_concat, hp']
  exact hc'

end Constructs

namespace SyntaxTree

/-- A class with a comment in it, from an offset on. -/
def classAt (text : Text) (start : Nat) : SyntaxTree :=
  nodeAt text "class_declaration" start (start + 15) [
    (nodeAt text "identifier" (start + 6) (start + 7) []).playing "name",
    (nodeAt text "class_body" (start + 8) (start + 15) [
      nodeAt text "line_comment" (start + 10) (start + 13) []]).playing "body"]

def alone : Text := "class A \x7b //x\n\x7d"

def aloneTree : SyntaxTree := nodeAt alone "program" 0 15 [classAt alone 0]

/-- The class again, further on and in another one. -/
def nested : Text := "class B \x7b\n class A \x7b //x\n\x7d\x7d"

def nestedTree : SyntaxTree :=
  nodeAt nested "program" 0 27 [
    nodeAt nested "class_declaration" 0 27 [
      (nodeAt nested "identifier" 6 7 []).playing "name",
      (nodeAt nested "class_body" 8 27 [classAt nested 11]).playing "body"]]

theorem sameNodes_nodeAt {text text' kind : Text} {start start' stop stop' : Nat}
    {children children' : List SyntaxTree}
    (h : Sequence.slice text start stop = Sequence.slice text' start' stop')
    (hparts : SameParts children children') :
    SameNodes (nodeAt text kind start stop children) (nodeAt text' kind start' stop' children') :=
  .node rfl (congrArg Text.encode h) hparts

theorem SameParts.cons_playing {t t' : SyntaxTree} {ts ts' : List SyntaxTree} (field : Text)
    (h : SameNodes t t') (hs : SameParts ts ts') :
    SameParts (t.playing field :: ts) (t'.playing field :: ts') := by
  cases h with
  | node hkind htext hparts => exact .cons rfl (.node hkind htext hparts) hs

theorem sameNodes_classAt : SameNodes (classAt alone 0) (classAt nested 11) := by
  refine sameNodes_nodeAt (by decide) (.cons_playing _ (sameNodes_nodeAt (by decide) .nil) ?_)
  refine .cons_playing _ (sameNodes_nodeAt (by decide) (.cons rfl ?_ .nil)) .nil
  exact sameNodes_nodeAt (by decide) .nil

theorem level_inside_declaration_nested :
    ∃ k d d' c, Language.java.constructs? = some k ∧
      (Cursor.root aloneTree).follow? [0] = some d ∧
      (Cursor.root nestedTree).follow? [0, 1, 0] = some d' ∧ d.focus.SameNodes d'.focus ∧
      d.kind ∈ k.classes ∧ d.follow? [1, 0] = some c ∧
      ∃ c', d'.follow? [1, 0] = some c' ∧ k.level c' = .class ∧ k.className c' = "A" := by
  obtain ⟨k, hk⟩ : ∃ k, Language.java.constructs? = some k := ⟨_, rfl⟩
  obtain ⟨d, hd⟩ : ∃ d, (Cursor.root aloneTree).follow? [0] = some d := ⟨_, rfl⟩
  obtain ⟨d', hd'⟩ : ∃ d', (Cursor.root nestedTree).follow? [0, 1, 0] = some d' := ⟨_, rfl⟩
  have hsame : d.focus.SameNodes d'.focus := by
    cases hd
    cases hd'
    exact sameNodes_classAt
  have hclass : d.kind ∈ k.classes := by
    cases hk
    cases hd
    decide
  obtain ⟨c, hc, hlevel, hname⟩ :
      ∃ c, d.follow? [1, 0] = some c ∧ k.level c = .class ∧ k.className c = "A" := by
    cases hk
    cases hd
    exact ⟨_, rfl, rfl, rfl⟩
  obtain ⟨c', hc', hlevel', -, hname'⟩ :=
    Constructs.level_inside_declaration hk hsame (.inl hclass) (by decide) hc
  exact ⟨k, d, d', c, hk, hd, hd', hsame, hclass, hc, c', hc', hlevel'.trans hlevel,
    (hname' hclass).trans hname⟩

end SyntaxTree

end Marginalia
