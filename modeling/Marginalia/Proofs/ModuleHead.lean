import Marginalia.Proofs.Adjacency

/-!
The head of a module. The comments that belong to the module are those that it begins with, up to
the first node that is no comment. Only the last of them can belong to a declaration instead, which
then stands next to it.
-/

namespace Marginalia

namespace Cursor

variable {c p : Cursor} {i : Nat}

theorem after_of_child? (h : c.child? i = some p) : p.after = c.focus.children.drop (i + 1) := by
  obtain ⟨⟨label, children⟩, frames⟩ := c
  obtain ⟨u, -, rfl⟩ := Option.map_eq_some_iff.mp h
  rfl

theorem exists_child?_of_parent? (h : c.parent? = some p) : ∃ i, p.child? i = some c := by
  obtain ⟨t, frames⟩ := c
  cases frames with
  | nil => cases h
  | cons f fs =>
      cases h
      refine ⟨f.before.reverse.length, ?_⟩
      have hbeyond : f.before.reverse.drop (f.before.length + 1) = [] :=
        List.drop_of_length_le (by simp)
      simp [child?, Frame.plug, List.drop_append, hbeyond]

end Cursor

namespace Sequence

theorem lt_length_takeWhile_iff {α : Type} {p : α → Bool} {xs : List α} {i : Nat} :
    i < (xs.takeWhile p).length ↔ i < xs.length ∧ ∀ x ∈ xs.take (i + 1), p x = true := by
  induction xs generalizing i with
  | nil => simp
  | cons x xs ih =>
      cases hx : p x with
      | false => simp [hx]
      | true =>
          cases i with
          | zero => simp [hx]
          | succ i => simp [hx, ih]

end Sequence

namespace SyntaxTree

/-- The comments that a tree begins with: its children up to the first that is no comment. -/
def headComments (t : SyntaxTree) : List SyntaxTree :=
  t.children.takeWhile fun u => u.kind == "comment"

end SyntaxTree

namespace Constructs

open Cursor (root)

variable {k : Constructs} {t : SyntaxTree} {c : Cursor} {l : Level} {i j : Nat}

/-! ## What makes a node belong to the module -/

theorem class_or_method_of_rules
    (h : (k.docstringLevel? c).or ((k.enclosingLevel? c).or (k.adjacentLevel? c)) = some l) :
    l = .class ∨ l = .method := by
  rcases Option.or_eq_some_iff.mp h with h | ⟨-, h⟩
  · exact class_or_method_of_docstringLevel? h
  rcases Option.or_eq_some_iff.mp h with h | ⟨-, h⟩
  · exact class_or_method_of_enclosingLevel? h
  · exact class_or_method_of_adjacentLevel? h

theorem level_eq_module_iff : k.level c = .module ↔ k.docstringLevel? c = none ∧
    k.enclosingLevel? c = none ∧ k.adjacentLevel? c = none ∧ k.headsModule c = true := by
  rw [level]
  cases hrules : (k.docstringLevel? c).or ((k.enclosingLevel? c).or (k.adjacentLevel? c)) with
  | some l =>
      have hl : l ≠ .module := by
        rcases class_or_method_of_rules hrules with rfl | rfl <;> decide
      refine iff_of_false hl ?_
      rintro ⟨hdocstring, henclosing, hadjacent, -⟩
      rw [hdocstring, henclosing, hadjacent] at hrules
      cases hrules
  | none =>
      obtain ⟨hdocstring, hothers⟩ := Option.or_eq_none_iff.mp hrules
      obtain ⟨henclosing, hadjacent⟩ := Option.or_eq_none_iff.mp hothers
      simp [hdocstring, henclosing, hadjacent]

theorem headsModule_iff_of_comment (hk : k.Separate) (hcomment : c.kind ∈ k.comments) :
    k.headsModule c = true ↔ (∃ p, c.parent? = some p ∧ k.module = some p.kind) ∧
      ∀ u ∈ c.before, u.kind ∈ k.comments := by
  have hstatement : k.docstringStatement? c = none := by
    rw [docstringStatement?, if_neg]
    simpa using hk.comments _ hcomment
  rw [headsModule, hstatement, Option.getD_none]
  cases hparent : c.parent? with
  | none => cases k.module <;> simp
  | some p =>
      have hkind : (k.module.isSome = true ∧ some p.kind = k.module) ↔ k.module = some p.kind := by
        constructor
        · exact fun h => h.2.symm
        · exact fun h => ⟨by rw [h]; rfl, h.symm⟩
      simpa [opensParent, isComment] using fun _ => hkind

/-! ## Comments of a module -/

theorem mem_comments_iff_python (hk : Language.python.constructs? = some k) {kind : Text} :
    kind ∈ k.comments ↔ kind = "comment" := by
  cases hk
  exact List.mem_singleton

theorem module_python (hk : Language.python.constructs? = some k) :
    k.module = some ("module" : Text) := by
  cases hk
  rfl

theorem kind_of_lt_headComments (hc : (root t).child? i = some c)
    (hi : i < t.headComments.length) : c.kind = "comment" := by
  obtain ⟨hlength, hfocus⟩ := List.getElem?_eq_some_iff.mp (Cursor.getElem?_of_child? hc)
  obtain ⟨-, hcomments⟩ := Sequence.lt_length_takeWhile_iff.mp hi
  refine beq_iff_eq.mp (hcomments c.focus (List.mem_take_iff_getElem.mpr ⟨i, ?_, hfocus⟩))
  exact Nat.lt_min.mpr ⟨Nat.lt_succ_self i, hlength⟩

theorem exists_child_of_lt_headComments (hi : i < t.headComments.length) :
    ∃ c, (root t).child? i = some c := by
  obtain ⟨hlength, -⟩ := Sequence.lt_length_takeWhile_iff.mp hi
  exact Cursor.exists_child?_of_getElem? (c := root t) (List.getElem?_eq_getElem hlength)

section

variable (hk : Language.python.constructs? = some k) (hroot : t.kind = "module")
include hk

theorem adjacentLevel?_eq_none_of_comment {u : SyntaxTree} (hafter : c.after.head? = some u)
    (hu : u.kind = "comment") : k.adjacentLevel? c = none := by
  rw [adjacentLevel?, hafter]
  simp [declarationLevel?_eq_none hk hu (by decide)]

include hroot

/-- A comment in the module itself belongs to it just if it is in the head of the module and next to
no declaration. -/
theorem level_child_eq_module_iff (hc : (root t).child? i = some c)
    (hcomment : c.kind = "comment") :
    k.level c = .module ↔ i < t.headComments.length ∧ k.adjacentLevel? c = none := by
  have hseparate := separate_of_constructs? hk
  have hmem : c.kind ∈ k.comments := (mem_comments_iff_python hk).mpr hcomment
  have hparent := Cursor.parent?_of_child? hc
  have henclosing : k.enclosingLevel? c = none := by
    rw [enclosingLevel?_of_child? hc]
    exact Option.or_eq_none_iff.mpr ⟨declarationLevel?_eq_none hk hroot (by decide), rfl⟩
  have hheads : k.headsModule c = true ↔ i < t.headComments.length := by
    obtain ⟨hi, hfocus⟩ := List.getElem?_eq_some_iff.mp (Cursor.getElem?_of_child? hc)
    have hi' : i < t.children.length := hi
    have htake : t.children.take (i + 1) = t.children.take i ++ [c.focus] := by
      rw [List.take_succ_eq_append_getElem hi', ← hfocus]
      rfl
    have hplace : ∃ p, c.parent? = some p ∧ k.module = some p.kind :=
      ⟨root t, hparent, (module_python hk).trans (congrArg some hroot.symm)⟩
    have hfocus' : c.focus.kind = "comment" := hcomment
    rw [headsModule_iff_of_comment hseparate hmem, Cursor.before_of_child? hc,
      SyntaxTree.headComments, Sequence.lt_length_takeWhile_iff, htake, List.forall_mem_append,
      List.forall_mem_singleton]
    simp only [List.mem_reverse, beq_iff_eq, mem_comments_iff_python hk]
    exact ⟨fun h => ⟨hi', h.2, hfocus'⟩, fun h => ⟨hplace, h.2.1⟩⟩
  rw [level_eq_module_iff, docstringLevel?_of_comment hseparate hmem, henclosing, hheads]
  simp [and_comm]

/-- In front of another comment of the head a comment belongs to the module. -/
theorem level_child_of_succ_lt (hc : (root t).child? i = some c)
    (hi : i + 1 < t.headComments.length) : k.level c = .module := by
  obtain ⟨e, he⟩ := exists_child_of_lt_headComments hi
  have hafter : c.after.head? = some e.focus := by
    rw [Cursor.after_of_child? hc, List.head?_drop]
    exact Cursor.getElem?_of_child? he
  have hnext : k.adjacentLevel? c = none :=
    adjacentLevel?_eq_none_of_comment hk hafter (kind_of_lt_headComments he hi)
  have hhead : i < t.headComments.length := Nat.lt_of_succ_lt hi
  exact (level_child_eq_module_iff hk hroot hc (kind_of_lt_headComments hc hhead)).mpr
    ⟨hhead, hnext⟩

end

/-- Where no module is inside another node: a comment that belongs to the module is a child of it,
and all that stands before it are comments that belong to it as well. Of the comments that the
module begins with all but the last belong to it, and the last one does just if no declaration next
to it begins on the next row at the latest. -/
theorem comments_of_module (hk : Language.python.constructs? = some k) (hroot : t.kind = "module")
    (hmodule : ∀ c ∈ t.cursors, c.kind = "module" → c = root t) :
    (∀ c ∈ t.cursors, c.kind = "comment" → k.level c = .module →
      ∃ i, (root t).child? i = some c ∧
        ∀ j < i, ∃ e, (root t).child? j = some e ∧ e.kind = "comment" ∧ k.level e = .module) ∧
    ∀ i c, (root t).child? i = some c →
      (i + 1 < t.headComments.length → k.level c = .module) ∧
      (i + 1 = t.headComments.length → ∀ row, c.focus.EndsOnRow row →
        (k.level c = .module ↔ ∀ l, ∀ next ≤ row + 1, ¬ k.DeclaredNext c l next)) := by
  have hseparate := separate_of_constructs? hk
  refine ⟨fun c hc hcomment hlevel => ?_, fun i c hc => ⟨fun hi => ?_, fun hi row hrow => ?_⟩⟩
  · have hmem : c.kind ∈ k.comments := (mem_comments_iff_python hk).mpr hcomment
    obtain ⟨-, -, -, hheads⟩ := level_eq_module_iff.mp hlevel
    obtain ⟨⟨p, hparent, hkind⟩, -⟩ := (headsModule_iff_of_comment hseparate hmem).mp hheads
    rw [module_python hk, Option.some_inj] at hkind
    obtain rfl := hmodule p (SyntaxTree.parent_mem_cursors hc hparent) hkind.symm
    obtain ⟨i, hi⟩ := Cursor.exists_child?_of_parent? hparent
    obtain ⟨hhead, -⟩ := (level_child_eq_module_iff hk hroot hi hcomment).mp hlevel
    refine ⟨i, hi, fun j hj => ?_⟩
    have hnext : j + 1 < t.headComments.length := by omega
    obtain ⟨e, he⟩ := exists_child_of_lt_headComments (Nat.lt_of_succ_lt hnext)
    exact ⟨e, he, kind_of_lt_headComments he (Nat.lt_of_succ_lt hnext),
      level_child_of_succ_lt hk hroot he hnext⟩
  · exact level_child_of_succ_lt hk hroot hc hi
  · have hhead : i < t.headComments.length := by omega
    rw [level_child_eq_module_iff hk hroot hc (kind_of_lt_headComments hc hhead),
      and_iff_right hhead, Option.eq_none_iff_forall_ne_some]
    simp only [ne_eq, adjacentLevel?_eq_some_iff hseparate hrow, not_exists, not_and]

end Constructs

namespace SyntaxTree

/-- Three comments and a class right behind them. -/
def headed : Text := "# a\n# b\n# c\nclass C: 0"

def headedTree : SyntaxTree :=
  nodeAt headed "module" 0 22 [
    nodeAt headed "comment" 0 3 [],
    nodeAt headed "comment" 4 7 [],
    nodeAt headed "comment" 8 11 [],
    nodeAt headed "class_definition" 12 22 [
      (nodeAt headed "identifier" 18 19 []).playing "name",
      (nodeAt headed "block" 21 22 []).playing "body"]]

theorem comments_of_module_headed :
    ∃ k b c, Language.python.constructs? = some k ∧ headedTree.kind = "module" ∧
      (∀ c ∈ headedTree.cursors, c.kind = "module" → c = Cursor.root headedTree) ∧
      (Cursor.root headedTree).child? 1 = some b ∧ (Cursor.root headedTree).child? 2 = some c ∧
      b ∈ headedTree.cursors ∧ k.level b = .module ∧
      (∃ i, (Cursor.root headedTree).child? i = some b ∧ ∀ j < i, ∃ e,
        (Cursor.root headedTree).child? j = some e ∧ e.kind = "comment" ∧ k.level e = .module) ∧
      c.focus.EndsOnRow 2 ∧ k.level c ≠ .module := by
  obtain ⟨k, hk⟩ : ∃ k, Language.python.constructs? = some k := ⟨_, rfl⟩
  obtain ⟨b, hb⟩ : ∃ b, (Cursor.root headedTree).child? 1 = some b := ⟨_, rfl⟩
  obtain ⟨c, hc⟩ : ∃ c, (Cursor.root headedTree).child? 2 = some c := ⟨_, rfl⟩
  have hothers : ∀ c ∈ headedTree.cursors.tail, c.kind ≠ "module" := by decide
  have hmodule : ∀ c ∈ headedTree.cursors, c.kind = "module" → c = Cursor.root headedTree :=
    List.forall_mem_cons.mpr ⟨fun _ => rfl, fun c hc h => absurd h (hothers c hc)⟩
  have hmem : b ∈ headedTree.cursors := List.mem_of_getElem? (i := 2) hb
  have hrow : c.focus.EndsOnRow 2 := by
    rw [endsOnRow_iff]
    cases hc
    rfl
  have hnext : k.DeclaredNext c .class 3 := by
    cases hk
    cases hc
    exact ⟨_, rfl, .class (by decide), rfl⟩
  obtain ⟨hfront, hhead⟩ := Constructs.comments_of_module hk rfl hmodule
  have hlevel : k.level b = .module := (hhead 1 b hb).1 (by decide)
  have hcomment : b.kind = "comment" := by
    cases hb
    rfl
  refine ⟨k, b, c, hk, rfl, hmodule, hb, hc, hmem, hlevel, hfront b hmem hcomment hlevel, hrow, ?_⟩
  exact fun hlast => ((hhead 2 c hc).2 rfl 2 hrow).mp hlast .class 3 (Nat.le_refl 3) hnext

end SyntaxTree

end Marginalia
