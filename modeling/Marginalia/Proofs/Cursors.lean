import Marginalia.Proofs.Docstrings

/-!
Ways through a tree. The parent of a node, its ancestors and its children are told of each other,
and the rule for docstrings is told step by step along the parents.
-/

namespace Marginalia

/-! ## Parents, children and ancestors -/

namespace Cursor

variable {c p e : Cursor} {i : Nat}

theorem ancestors_of_parent? (h : c.parent? = some p) : c.ancestors = p.focus :: p.ancestors := by
  obtain ⟨focus, frames⟩ := c
  cases frames with
  | nil => cases h
  | cons f fs =>
      cases h
      rfl

theorem children_of_parent? (h : c.parent? = some p) :
    p.focus.children = c.before.reverse ++ c.focus :: c.after := by
  obtain ⟨focus, frames⟩ := c
  cases frames with
  | nil => cases h
  | cons f fs =>
      cases h
      rfl

theorem getElem?_of_child? (h : c.child? i = some e) : c.focus.children[i]? = some e.focus := by
  obtain ⟨⟨label, children⟩, frames⟩ := c
  obtain ⟨u, hu, rfl⟩ := Option.map_eq_some_iff.mp h
  exact hu

theorem before_of_child? (h : c.child? i = some e) :
    e.before = (c.focus.children.take i).reverse := by
  obtain ⟨⟨label, children⟩, frames⟩ := c
  obtain ⟨u, -, rfl⟩ := Option.map_eq_some_iff.mp h
  rfl

theorem parent?_of_child? (h : c.child? i = some e) : e.parent? = some c := by
  obtain ⟨⟨label, children⟩, frames⟩ := c
  obtain ⟨u, hu, rfl⟩ := Option.map_eq_some_iff.mp h
  obtain ⟨hi, rfl⟩ := List.getElem?_eq_some_iff.mp hu
  simp only [parent?, Frame.plug]
  rw [List.reverse_reverse, ← List.drop_eq_getElem_cons hi, List.take_append_drop]

theorem exists_child?_of_getElem? {u : SyntaxTree} (h : c.focus.children[i]? = some u) :
    ∃ e, c.child? i = some e := by
  obtain ⟨⟨label, children⟩, frames⟩ := c
  exact ⟨_, congrArg (Option.map _) h⟩

theorem follow?_cons (path : List Nat) :
    c.follow? (i :: path) = (c.child? i).bind fun e => e.follow? path := rfl

theorem follow?_concat (path : List Nat) :
    c.follow? (path ++ [i]) = (c.follow? path).bind fun p => p.child? i := by
  rw [follow?, List.foldlM_append]
  simp [follow?]

end Cursor

namespace SyntaxTree

/-- The name that the node states, empty if it states none. -/
def givenName (t : SyntaxTree) : Text := ((t.childBy? "name").map ownText).getD []

mutual

theorem exists_parent_of_mem_cursorsIn {c : Cursor} {frames : List Frame} (t : SyntaxTree)
    (h : c ∈ cursorsIn frames t) :
    c = ⟨t, frames⟩ ∨ ∃ p ∈ cursorsIn frames t, c.parent? = some p := by
  match t with
  | node label children =>
      rw [cursorsIn] at h ⊢
      rcases List.mem_cons.mp h with rfl | h
      · exact .inl rfl
      · rcases exists_parent_of_mem_cursorsAmong [] children h with hparent | ⟨p, hp, hparent⟩
        · exact .inr ⟨_, List.mem_cons_self, hparent⟩
        · exact .inr ⟨p, List.mem_cons_of_mem _ hp, hparent⟩

theorem exists_parent_of_mem_cursorsAmong {c : Cursor} {label : NodeLabel} {frames : List Frame}
    (before children : List SyntaxTree) (h : c ∈ cursorsAmong label frames before children) :
    c.parent? = some ⟨node label (before.reverse ++ children), frames⟩ ∨
      ∃ p ∈ cursorsAmong label frames before children, c.parent? = some p := by
  match children with
  | [] =>
      rw [cursorsAmong] at h
      cases h
  | u :: after =>
      rw [cursorsAmong] at h ⊢
      rcases List.mem_append.mp h with h | h
      · rcases exists_parent_of_mem_cursorsIn u h with rfl | ⟨p, hp, hparent⟩
        · exact .inl rfl
        · exact .inr ⟨p, List.mem_append_left _ hp, hparent⟩
      · rcases exists_parent_of_mem_cursorsAmong (u :: before) after h with
          hparent | ⟨p, hp, hparent⟩
        · left
          rw [hparent, List.reverse_cons, List.append_assoc, List.singleton_append]
        · exact .inr ⟨p, List.mem_append_right _ hp, hparent⟩

end

/-- The parent of a node of a tree is a node of the tree. -/
theorem parent_mem_cursors {t : SyntaxTree} {c p : Cursor} (h : c ∈ t.cursors)
    (hparent : c.parent? = some p) : p ∈ t.cursors := by
  rcases exists_parent_of_mem_cursorsIn t h with rfl | ⟨q, hq, hq'⟩
  · cases hparent
  · cases hq'.symm.trans hparent
    exact hq

end SyntaxTree

/-! ## Levels and names -/

namespace Constructs

variable {k : Constructs} {t : SyntaxTree} {c d statement body owner : Cursor} {l : Level}

theorem declarationLevel?_of_mem_classes (hwrappers : t.kind ∉ k.wrappers)
    (hclasses : t.kind ∈ k.classes) : k.declarationLevel? t = some .class := by
  rw [declarationLevel?, if_neg (by simpa using hwrappers), plainLevel?,
    if_pos (by simpa using hclasses)]

theorem declarationLevel?_of_mem_methods (hwrappers : t.kind ∉ k.wrappers)
    (hclasses : t.kind ∉ k.classes) (hmethods : t.kind ∈ k.methods) :
    k.declarationLevel? t = some .method := by
  rw [declarationLevel?, if_neg (by simpa using hwrappers), plainLevel?,
    if_neg (by simpa using hclasses), if_pos (by simpa using hmethods)]

theorem declarationLevel?_of_not_mem (hwrappers : t.kind ∉ k.wrappers)
    (hclasses : t.kind ∉ k.classes) (hmethods : t.kind ∉ k.methods) :
    k.declarationLevel? t = none := by
  rw [declarationLevel?, if_neg (by simpa using hwrappers), plainLevel?,
    if_neg (by simpa using hclasses), if_neg (by simpa using hmethods)]

theorem docstringStatement?_eq_some_iff :
    k.docstringStatement? d = some statement ↔
      k.docstring = some d.kind ∧ d.parent? = some statement ∧
        statement.kind = "expression_statement" := by
  rw [docstringStatement?]
  constructor
  · intro h
    split at h
    · rename_i hkind
      obtain ⟨hparent, hshape⟩ := Option.filter_eq_some_iff.mp h
      exact ⟨beq_iff_eq.mp hkind, hparent, beq_iff_eq.mp hshape⟩
    · cases h
  · rintro ⟨hkind, hparent, hshape⟩
    rw [if_pos (beq_iff_eq.mpr hkind)]
    exact Option.filter_eq_some_iff.mpr ⟨hparent, beq_iff_eq.mpr hshape⟩

/-- The node has the form of a docstring, and its statement opens the block of the owner, comments
aside. -/
structure OpensBlock (k : Constructs) (d statement body owner : Cursor) : Prop where
  docstring : k.docstring = some d.kind
  parent : d.parent? = some statement
  shape : statement.kind = "expression_statement"
  inBody : statement.parent? = some body
  block : body.kind = "block"
  owned : body.parent? = some owner
  first : ∀ u ∈ statement.before, k.isComment u = true

theorem docstringLevel?_eq_some_iff :
    k.docstringLevel? d = some l ↔ ∃ statement body owner, k.OpensBlock d statement body owner ∧
      k.declarationLevel? owner.focus = some l := by
  rw [docstringLevel?]
  simp only [Option.bind_eq_bind, Option.bind_eq_some_iff, docstringStatement?_eq_some_iff]
  constructor
  · rintro ⟨statement, ⟨hkind, hparent, hshape⟩, body, hbody, owner, howner, h⟩
    split at h
    · rename_i hopens
      obtain ⟨hblock, hfirst⟩ := Bool.and_eq_true_iff.mp hopens
      exact ⟨statement, body, owner, ⟨hkind, hparent, hshape, hbody, beq_iff_eq.mp hblock, howner,
        List.all_eq_true.mp hfirst⟩, h⟩
    · cases h
  · rintro ⟨statement, body, owner, hopens, hlevel⟩
    refine ⟨statement, ⟨hopens.docstring, hopens.parent, hopens.shape⟩, body, hopens.inBody,
      owner, hopens.owned, ?_⟩
    rw [if_pos]
    · exact hlevel
    · exact Bool.and_eq_true_iff.mpr
        ⟨beq_iff_eq.mpr hopens.block, List.all_eq_true.mpr hopens.first⟩

theorem class_or_method_of_plainLevel? (h : k.plainLevel? t = some l) :
    l = .class ∨ l = .method := by
  rw [plainLevel?] at h
  split at h
  · cases h
    exact .inl rfl
  · split at h
    · cases h
      exact .inr rfl
    · cases h

theorem class_or_method_of_declarationLevel? (h : k.declarationLevel? t = some l) :
    l = .class ∨ l = .method := by
  rw [declarationLevel?] at h
  split at h
  · obtain ⟨u, -, hu⟩ := Option.bind_eq_some_iff.mp h
    exact class_or_method_of_plainLevel? hu
  · exact class_or_method_of_plainLevel? h

theorem class_or_method_of_docstringLevel? (h : k.docstringLevel? c = some l) :
    l = .class ∨ l = .method := by
  obtain ⟨_, _, _, -, hlevel⟩ := docstringLevel?_eq_some_iff.mp h
  exact class_or_method_of_declarationLevel? hlevel

theorem class_or_method_of_enclosingLevel? (h : k.enclosingLevel? c = some l) :
    l = .class ∨ l = .method := by
  obtain ⟨_, -, hlevel⟩ := List.exists_of_findSome?_eq_some h
  exact class_or_method_of_declarationLevel? hlevel

theorem class_or_method_of_adjacentLevel? (h : k.adjacentLevel? c = some l) :
    l = .class ∨ l = .method := by
  obtain ⟨sibling, -, hlevel⟩ := Option.bind_eq_some_iff.mp h
  split at hlevel
  · exact class_or_method_of_declarationLevel? hlevel
  · cases hlevel

theorem level_of_docstringLevel? (h : k.docstringLevel? c = some l) : k.level c = l := by
  rw [level, h]
  rfl

theorem level_of_enclosingLevel? (h : k.docstringLevel? c = none)
    (h' : k.enclosingLevel? c = some l) : k.level c = l := by
  rw [level, h, h']
  rfl

theorem enclosingLevel?_of_child? {p : Cursor} {i : Nat} (h : p.child? i = some c) :
    k.enclosingLevel? c = (k.declarationLevel? p.focus).or (k.enclosingLevel? p) := by
  rw [enclosingLevel?, Cursor.ancestors_of_parent? (Cursor.parent?_of_child? h),
    List.findSome?_cons, enclosingLevel?]
  cases k.declarationLevel? p.focus <;> rfl

theorem className_of_child? {p : Cursor} {i : Nat} (h : p.child? i = some c) :
    k.className c = if p.kind ∈ k.classes then p.focus.givenName else k.className p := by
  rw [className, Cursor.ancestors_of_parent? (Cursor.parent?_of_child? h)]
  by_cases hclass : p.kind ∈ k.classes
  · rw [List.find?_cons_of_pos (by simpa [Cursor.kind] using hclass), if_pos hclass]
    rfl
  · rw [List.find?_cons_of_neg (by simpa [Cursor.kind] using hclass), if_neg hclass]
    rfl

end Constructs

end Marginalia
