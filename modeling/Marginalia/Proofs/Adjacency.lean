import Marginalia.Proofs.Attribution
import Marginalia.Proofs.Locality

/-!
Comments in front of declarations. A comment that is in no declaration has the level of the
declaration next to it if no blank row is between them. That holds of one that starts on the next
row, and also of one that starts on the last row of the comment itself.
-/

namespace Marginalia

namespace SyntaxTree

/-- The last row that the node takes up. A node that ends at the start of a row, below the row that
it begins on, ends in the row before. -/
inductive EndsOnRow (t : SyntaxTree) : Nat → Prop where
  | inside : 0 < t.label.stop.column ∨ t.label.stop.row ≤ t.label.start.row →
      EndsOnRow t t.label.stop.row
  | atStart {row : Nat} : t.label.stop.column = 0 → t.label.start.row ≤ row →
      t.label.stop.row = row + 1 → EndsOnRow t row

theorem endsOnRow_iff {t : SyntaxTree} {row : Nat} :
    t.EndsOnRow row ↔ Constructs.lastRow t = row := by
  rw [Constructs.lastRow]
  constructor
  · intro h
    cases h with
    | inside h => rw [if_neg (by simp; omega)]
    | atStart hcolumn hstart hstop =>
        rw [if_pos (by simp [hcolumn]; omega), hstop]
        rfl
  · intro h
    split at h
    · rename_i hends
      simp only [decide_eq_true_eq, Bool.and_eq_true] at hends
      exact .atStart hends.1 (by omega) (by omega)
    · rename_i hends
      simp only [decide_eq_true_eq, Bool.and_eq_true] at hends
      subst h
      exact .inside (by omega)

end SyntaxTree

namespace Constructs

/-- The node declares a class or a method, or wraps a node that does. -/
inductive IsDeclarationOf (k : Constructs) : SyntaxTree → Level → Prop where
  | «class» {t : SyntaxTree} : t.kind ∈ k.classes → IsDeclarationOf k t .class
  | method {t : SyntaxTree} : t.kind ∈ k.methods → IsDeclarationOf k t .method
  | wrappedClass {t u : SyntaxTree} : t.kind ∈ k.wrappers → t.childBy? "definition" = some u →
      u.kind ∈ k.classes → IsDeclarationOf k t .class
  | wrappedMethod {t u : SyntaxTree} : t.kind ∈ k.wrappers → t.childBy? "definition" = some u →
      u.kind ∈ k.methods → IsDeclarationOf k t .method

/-- The next sibling declares a class or a method, and begins on that row. -/
def DeclaredNext (k : Constructs) (c : Cursor) (l : Level) (row : Nat) : Prop :=
  ∃ sibling, c.after.head? = some sibling ∧ k.IsDeclarationOf sibling l ∧
    sibling.label.start.row = row

/-- No kind of node in the table of a language counts twice. -/
structure Separate (k : Constructs) : Prop where
  wrappers : ∀ kind ∈ k.wrappers, kind ∉ k.classes ∧ kind ∉ k.methods
  methods : ∀ kind ∈ k.methods, kind ∉ k.classes
  comments : ∀ kind ∈ k.comments, k.docstring ≠ some kind

variable {language : Language} {k : Constructs} {t : SyntaxTree} {c : Cursor} {l : Level}
  {row : Nat}

theorem separate_of_constructs? (hk : language.constructs? = some k) : k.Separate := by
  cases language with
  | java =>
      cases hk
      exact ⟨by decide, by decide, by decide⟩
  | python =>
      cases hk
      exact ⟨by decide, by decide, by decide⟩
  | pharo => cases hk

theorem plainLevel?_eq_some_iff (hk : k.Separate) : k.plainLevel? t = some l ↔
    (t.kind ∈ k.classes ∧ l = .class) ∨ (t.kind ∈ k.methods ∧ l = .method) := by
  rw [plainLevel?]
  by_cases hclass : t.kind ∈ k.classes
  · have hmethod : t.kind ∉ k.methods := fun h => hk.methods _ h hclass
    simp [hclass, hmethod, eq_comm]
  · simp [hclass, eq_comm]

theorem declarationLevel?_eq_some_iff (hk : k.Separate) :
    k.declarationLevel? t = some l ↔ k.IsDeclarationOf t l := by
  rw [declarationLevel?]
  constructor
  · intro h
    split at h
    · rename_i hwrapper
      obtain ⟨u, hu, h⟩ := Option.bind_eq_some_iff.mp h
      have hkind : t.kind ∈ k.wrappers := by simpa using hwrapper
      rcases (plainLevel?_eq_some_iff hk).mp h with ⟨hclass, rfl⟩ | ⟨hmethod, rfl⟩
      · exact .wrappedClass hkind hu hclass
      · exact .wrappedMethod hkind hu hmethod
    · rcases (plainLevel?_eq_some_iff hk).mp h with ⟨hclass, rfl⟩ | ⟨hmethod, rfl⟩
      · exact .class hclass
      · exact .method hmethod
  · have hplain {kind : Text} (h : kind ∈ k.classes ∨ kind ∈ k.methods) :
        ¬ k.wrappers.contains kind = true := by
      intro hwrapper
      obtain ⟨hclass, hmethod⟩ := hk.wrappers kind (by simpa using hwrapper)
      exact h.elim hclass hmethod
    intro h
    cases h with
    | «class» h =>
        rw [if_neg (hplain (.inl h)), plainLevel?_eq_some_iff hk]
        exact .inl ⟨h, rfl⟩
    | method h =>
        rw [if_neg (hplain (.inr h)), plainLevel?_eq_some_iff hk]
        exact .inr ⟨h, rfl⟩
    | wrappedClass hwrapper hu h =>
        rw [if_pos (by simpa using hwrapper), hu, Option.bind_some, plainLevel?_eq_some_iff hk]
        exact .inl ⟨h, rfl⟩
    | wrappedMethod hwrapper hu h =>
        rw [if_pos (by simpa using hwrapper), hu, Option.bind_some, plainLevel?_eq_some_iff hk]
        exact .inr ⟨h, rfl⟩

theorem IsDeclarationOf.class_or_method (h : k.IsDeclarationOf t l) : l = .class ∨ l = .method := by
  cases h <;> simp

/-! ## One rule after the other -/

theorem docstringLevel?_of_comment (hk : k.Separate) (h : c.kind ∈ k.comments) :
    k.docstringLevel? c = none := by
  rw [Option.eq_none_iff_forall_ne_some]
  intro l hl
  obtain ⟨_, _, _, hopens, -⟩ := docstringLevel?_eq_some_iff.mp hl
  exact hk.comments _ h hopens.docstring

theorem enclosingLevel?_eq_none_iff (hk : k.Separate) :
    k.enclosingLevel? c = none ↔ ∀ t ∈ c.ancestors, ∀ l, ¬ k.IsDeclarationOf t l := by
  rw [enclosingLevel?, List.findSome?_eq_none_iff]
  simp only [Option.eq_none_iff_forall_ne_some, ne_eq, declarationLevel?_eq_some_iff hk]

theorem adjacentLevel?_eq_some_iff (hk : k.Separate) (hrow : c.focus.EndsOnRow row) :
    k.adjacentLevel? c = some l ↔ ∃ next ≤ row + 1, k.DeclaredNext c l next := by
  rw [adjacentLevel?, SyntaxTree.endsOnRow_iff.mp hrow]
  simp only [Option.bind_eq_bind, Option.bind_eq_some_iff]
  constructor
  · rintro ⟨sibling, hsibling, h⟩
    split at h
    · rename_i hnext
      exact ⟨_, hnext, sibling, hsibling, (declarationLevel?_eq_some_iff hk).mp h, rfl⟩
    · cases h
  · rintro ⟨next, hnext, sibling, hsibling, hdeclares, rfl⟩
    refine ⟨sibling, hsibling, ?_⟩
    rw [if_pos hnext, declarationLevel?_eq_some_iff hk]
    exact hdeclares

/-- Where the first two rules do not apply, the level of a declaration comes from the one next to
the node. -/
theorem level_eq_iff_adjacentLevel? (hdocstring : k.docstringLevel? c = none)
    (henclosing : k.enclosingLevel? c = none) (hl : l = .class ∨ l = .method) :
    k.level c = l ↔ k.adjacentLevel? c = some l := by
  rw [level, hdocstring, henclosing, Option.none_or, Option.none_or]
  cases k.adjacentLevel? c with
  | some l' => exact Option.some_inj.symm
  | none =>
      have hother : (if k.headsModule c then Level.module else .inline) ≠ l := by
        split <;> rcases hl with rfl | rfl <;> decide
      simpa using hother

theorem DeclaredNext.unique {l' : Level} {row' : Nat} (h : k.DeclaredNext c l row)
    (h' : k.DeclaredNext c l' row') : row = row' := by
  obtain ⟨sibling, hsibling, -, rfl⟩ := h
  obtain ⟨sibling', hsibling', -, rfl⟩ := h'
  cases hsibling.symm.trans hsibling'
  rfl

/-- A comment in no declaration has the level of a class or a method just if one is declared next
to it and begins on the next row at the latest. The next row is the only one just if no declaration
next to the comment begins on the last row of the comment. -/
theorem level_beside_declaration (hk : language.constructs? = some k)
    (hcomment : c.kind ∈ k.comments) (houtside : ∀ t ∈ c.ancestors, ∀ l, ¬ k.IsDeclarationOf t l)
    (hrow : c.focus.EndsOnRow row) :
    (∀ l, l = .class ∨ l = .method →
      (k.level c = l ↔ ∃ next ≤ row + 1, k.DeclaredNext c l next)) ∧
    ((∀ l, l = .class ∨ l = .method → (k.level c = l ↔ k.DeclaredNext c l (row + 1))) ↔
      ∀ l, ∀ next ≤ row, ¬ k.DeclaredNext c l next) := by
  have hseparate := separate_of_constructs? hk
  have hlevel : ∀ l, l = .class ∨ l = .method →
      (k.level c = l ↔ ∃ next ≤ row + 1, k.DeclaredNext c l next) := by
    intro l hl
    rw [level_eq_iff_adjacentLevel? (docstringLevel?_of_comment hseparate hcomment)
      ((enclosingLevel?_eq_none_iff hseparate).mpr houtside) hl]
    exact adjacentLevel?_eq_some_iff hseparate hrow
  refine ⟨hlevel, ⟨fun honly l next hnext hdeclared => ?_, fun hbelow l hl => ?_⟩⟩
  · obtain ⟨_, _, hdeclares, _⟩ := id hdeclared
    have hl := hdeclares.class_or_method
    have hsame := (honly l hl).mp ((hlevel l hl).mpr ⟨next, by omega, hdeclared⟩)
    have := hdeclared.unique hsame
    omega
  · rw [hlevel l hl]
    constructor
    · rintro ⟨next, hnext, hdeclared⟩
      have hlast : next = row + 1 := by
        by_contra hne
        exact hbelow l next (by omega) hdeclared
      exact hlast ▸ hdeclared
    · exact fun hdeclared => ⟨row + 1, Nat.le_refl _, hdeclared⟩

end Constructs

namespace SyntaxTree

/-- A comment with the line feed behind it, and a function with a decorator on the next row. -/
def swallowing : Text := "# c\n@p\ndef f(): 0"

def swallowingTree : SyntaxTree :=
  nodeAt swallowing "module" 0 17 [
    nodeAt swallowing "comment" 0 4 [],
    nodeAt swallowing "decorated_definition" 4 17 [
      nodeAt swallowing "decorator" 4 6 [],
      (nodeAt swallowing "function_definition" 7 17 []).playing "definition"]]

theorem level_beside_declaration_swallowing :
    ∃ k c, Language.python.constructs? = some k ∧
      (Cursor.root swallowingTree).child? 0 = some c ∧ c.kind ∈ k.comments ∧
      (∀ t ∈ c.ancestors, ∀ l, ¬ k.IsDeclarationOf t l) ∧ c.focus.EndsOnRow 0 ∧
      k.DeclaredNext c .method 1 ∧ k.level c = .method := by
  obtain ⟨k, hk⟩ : ∃ k, Language.python.constructs? = some k := ⟨_, rfl⟩
  obtain ⟨c, hc⟩ : ∃ c, (Cursor.root swallowingTree).child? 0 = some c := ⟨_, rfl⟩
  have hseparate := Constructs.separate_of_constructs? hk
  have hcomment : c.kind ∈ k.comments := by
    cases hk
    cases hc
    decide
  have houtside : ∀ t ∈ c.ancestors, ∀ l, ¬ k.IsDeclarationOf t l := by
    rw [← Constructs.enclosingLevel?_eq_none_iff hseparate]
    cases hk
    cases hc
    rfl
  have hrow : c.focus.EndsOnRow 0 := by
    rw [endsOnRow_iff]
    cases hc
    rfl
  have hnext : k.DeclaredNext c .method 1 := by
    cases hk
    cases hc
    exact ⟨_, rfl, .wrappedMethod (by decide) rfl (by decide), rfl⟩
  obtain ⟨hlevel, -⟩ := Constructs.level_beside_declaration hk hcomment houtside hrow
  exact ⟨k, c, hk, hc, hcomment, houtside, hrow, hnext,
    (hlevel .method (.inr rfl)).mpr ⟨1, Nat.le_refl 1, hnext⟩⟩

/-- A comment and a class on one row. -/
def sharing : Text := "/* a */ class A \x7b\x7d"

def sharingTree : SyntaxTree :=
  nodeAt sharing "program" 0 18 [
    nodeAt sharing "block_comment" 0 7 [],
    nodeAt sharing "class_declaration" 8 18 [
      (nodeAt sharing "identifier" 14 15 []).playing "name",
      (nodeAt sharing "class_body" 16 18 []).playing "body"]]

/-- The comment has the level of the class that begins on its own row and not on the next. -/
theorem sharing_level :
    ∃ k c, Language.java.constructs? = some k ∧ (Cursor.root sharingTree).child? 0 = some c ∧
      c.kind ∈ k.comments ∧ (∀ t ∈ c.ancestors, ∀ l, ¬ k.IsDeclarationOf t l) ∧
      c.focus.EndsOnRow 0 ∧ k.level c = .class ∧ ∀ l, ¬ k.DeclaredNext c l 1 := by
  obtain ⟨k, hk⟩ : ∃ k, Language.java.constructs? = some k := ⟨_, rfl⟩
  obtain ⟨c, hc⟩ : ∃ c, (Cursor.root sharingTree).child? 0 = some c := ⟨_, rfl⟩
  refine ⟨k, c, hk, hc, ?_, ?_, ?_, ?_, ?_⟩
  · cases hk
    cases hc
    decide
  · rw [← Constructs.enclosingLevel?_eq_none_iff (Constructs.separate_of_constructs? hk)]
    cases hk
    cases hc
    rfl
  · rw [endsOnRow_iff]
    cases hc
    rfl
  · cases hk
    cases hc
    rfl
  · rintro l ⟨sibling, hsibling, -, hstart⟩
    cases hc
    cases hsibling
    exact absurd hstart (by decide)

end SyntaxTree

end Marginalia
