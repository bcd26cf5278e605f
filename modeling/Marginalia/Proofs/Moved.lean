import Marginalia.Proofs.Sorting
import Marginalia.SyntaxTree.Selection

/-!
Trees moved down a source: all their places lie some line feeds further on. What is selected in a
moved tree, and what its surroundings say, is what they were.
-/

namespace Marginalia

/-! ## Moved places -/

/-- The place behind `k` more line feeds at the start of the source. -/
def Position.moved (k : Nat) (p : Position) : Position := ⟨p.offset + k, p.row + k, p.column⟩

def NodeLabel.moved (k : Nat) (l : NodeLabel) : NodeLabel :=
  { l with start := l.start.moved k, stop := l.stop.moved k }

namespace SyntaxTree

mutual
def moved (k : Nat) : SyntaxTree → SyntaxTree
  | node label children => node (label.moved k) (movedAll k children)

def movedAll (k : Nat) : List SyntaxTree → List SyntaxTree
  | [] => []
  | t :: ts => moved k t :: movedAll k ts
end

variable (k : Nat)

theorem movedAll_eq_map (ts : List SyntaxTree) : movedAll k ts = ts.map (moved k) := by
  induction ts with
  | nil => rfl
  | cons t ts ih => rw [movedAll, ih, List.map_cons]

@[simp] theorem moved_node (label : NodeLabel) (children : List SyntaxTree) :
    moved k (node label children) = node (label.moved k) (children.map (moved k)) := by
  rw [moved, movedAll_eq_map]

@[simp] theorem label_moved (t : SyntaxTree) : (t.moved k).label = t.label.moved k := by
  cases t
  rfl

@[simp] theorem kind_moved (t : SyntaxTree) : (t.moved k).kind = t.kind := by
  cases t
  rfl

@[simp] theorem children_moved (t : SyntaxTree) :
    (t.moved k).children = t.children.map (moved k) := by
  cases t
  exact movedAll_eq_map k _

theorem childBy?_moved (t : SyntaxTree) (field : Text) :
    (t.moved k).childBy? field = (t.childBy? field).map (moved k) := by
  rw [childBy?, children_moved, List.find?_map, childBy?]
  congr 2
  funext c
  rw [Function.comp_apply, label_moved]
  rfl

end SyntaxTree

/-! ## Moved cursors -/

def Frame.moved (k : Nat) (f : Frame) : Frame :=
  ⟨f.parent.moved k, f.before.map (.moved k), f.after.map (.moved k)⟩

theorem Frame.plug_moved (k : Nat) (f : Frame) (t : SyntaxTree) :
    (f.moved k).plug (t.moved k) = (f.plug t).moved k := by
  rw [plug, plug, SyntaxTree.moved_node, List.map_append, List.map_reverse, List.map_cons]
  rfl

namespace Cursor

def moved (k : Nat) (c : Cursor) : Cursor := ⟨c.focus.moved k, c.frames.map (.moved k)⟩

variable (k : Nat) (c : Cursor)

@[simp] theorem kind_moved : (c.moved k).kind = c.kind := c.focus.kind_moved k

@[simp] theorem label_moved : (c.moved k).focus.label = c.focus.label.moved k :=
  c.focus.label_moved k

theorem parent?_moved : (c.moved k).parent? = c.parent?.map (moved k) := by
  obtain ⟨focus, frames⟩ := c
  cases frames with
  | nil => rfl
  | cons f fs =>
      rw [parent?, moved, List.map_cons, parent?, Option.map_some]
      simp only [Frame.plug_moved, moved]

theorem before_moved : (c.moved k).before = c.before.map (.moved k) := by
  obtain ⟨focus, frames⟩ := c
  cases frames <;> rfl

theorem after_moved : (c.moved k).after = c.after.map (.moved k) := by
  obtain ⟨focus, frames⟩ := c
  cases frames <;> rfl

theorem ancestorsOf_moved (t : SyntaxTree) (frames : List Frame) :
    ancestorsOf (t.moved k) (frames.map (.moved k)) = (ancestorsOf t frames).map (.moved k) := by
  induction frames generalizing t with
  | nil => rfl
  | cons f fs ih => rw [List.map_cons, ancestorsOf, Frame.plug_moved, ih, ancestorsOf, List.map_cons]

theorem ancestors_moved : (c.moved k).ancestors = c.ancestors.map (.moved k) :=
  ancestorsOf_moved k c.focus c.frames

end Cursor

namespace SyntaxTree

mutual
theorem cursorsIn_moved (k : Nat) (frames : List Frame) (t : SyntaxTree) :
    cursorsIn (frames.map (.moved k)) (t.moved k) = (cursorsIn frames t).map (.moved k) := by
  match t with
  | node label children =>
      have h := cursorsAmong_moved k label frames [] children
      rw [moved_node, cursorsIn, cursorsIn, List.map_cons]
      rw [List.map_nil] at h
      rw [h, Cursor.moved, moved_node]

theorem cursorsAmong_moved (k : Nat) (label : NodeLabel) (frames : List Frame)
    (before : List SyntaxTree) (ts : List SyntaxTree) :
    cursorsAmong (label.moved k) (frames.map (.moved k)) (before.map (moved k))
      (ts.map (moved k)) = (cursorsAmong label frames before ts).map (.moved k) := by
  match ts with
  | [] => rfl
  | t :: ts =>
      have ht := cursorsIn_moved k (⟨label, before, ts⟩ :: frames) t
      have hts := cursorsAmong_moved k label frames (t :: before) ts
      rw [List.map_cons, cursorsAmong, cursorsAmong, List.map_append, ← ht, ← hts]
      rfl
end

theorem cursors_moved (k : Nat) (t : SyntaxTree) :
    (t.moved k).cursors = t.cursors.map (.moved k) :=
  cursorsIn_moved k [] t

end SyntaxTree

/-! ## What the surroundings say -/

namespace Constructs

variable (d : Constructs) (k : Nat)

theorem plainLevel?_moved (t : SyntaxTree) : d.plainLevel? (t.moved k) = d.plainLevel? t := by
  rw [plainLevel?, plainLevel?, SyntaxTree.kind_moved]

theorem declarationLevel?_moved (t : SyntaxTree) :
    d.declarationLevel? (t.moved k) = d.declarationLevel? t := by
  rw [declarationLevel?, declarationLevel?, SyntaxTree.kind_moved, SyntaxTree.childBy?_moved,
    d.plainLevel?_moved, Option.bind_map]
  simp only [Function.comp_def, d.plainLevel?_moved]

variable (c : Cursor)

theorem opensParent_moved : d.opensParent (c.moved k) = d.opensParent c := by
  have hcomment : d.isComment ∘ SyntaxTree.moved k = d.isComment := funext fun t => by
    rw [Function.comp_apply, isComment, isComment, SyntaxTree.kind_moved]
  rw [opensParent, opensParent, Cursor.before_moved, List.all_map, hcomment]

theorem docstringStatement?_moved :
    d.docstringStatement? (c.moved k) = (d.docstringStatement? c).map (.moved k) := by
  rw [docstringStatement?, docstringStatement?, Cursor.kind_moved, Cursor.parent?_moved]
  split
  · cases c.parent? with
    | none => rfl
    | some s =>
        rw [Option.map_some, Option.filter_some, Option.filter_some, Cursor.kind_moved]
        split <;> rfl
  · rfl

theorem docstringLevel?_moved : d.docstringLevel? (c.moved k) = d.docstringLevel? c := by
  rw [docstringLevel?, docstringLevel?, docstringStatement?_moved]
  cases d.docstringStatement? c with
  | none => rfl
  | some statement =>
      simp only [Option.map_some, Option.bind_eq_bind, Option.bind_some, Cursor.parent?_moved]
      cases statement.parent? with
      | none => rfl
      | some body =>
          simp only [Option.map_some, Option.bind_some, Cursor.parent?_moved]
          cases body.parent? with
          | none => rfl
          | some owner =>
              simp only [Option.map_some, Option.bind_some, Cursor.kind_moved, opensParent_moved]
              rw [Cursor.moved, declarationLevel?_moved]

theorem enclosingLevel?_moved : d.enclosingLevel? (c.moved k) = d.enclosingLevel? c := by
  rw [enclosingLevel?, enclosingLevel?, Cursor.ancestors_moved, List.findSome?_map]
  exact congrArg (List.findSome? · c.ancestors) (funext fun t => d.declarationLevel?_moved k t)

theorem lastRow_moved (t : SyntaxTree) : lastRow (t.moved k) = lastRow t + k := by
  simp only [lastRow, SyntaxTree.label_moved, NodeLabel.moved, Position.moved,
    Nat.add_lt_add_iff_right]
  by_cases h : t.label.stop.column = 0 ∧ t.label.start.row < t.label.stop.row
  · obtain ⟨hcolumn, hrow⟩ := h
    simp only [hcolumn, hrow, if_true, decide_true, Bool.and_self]
    omega
  · simp only [Bool.and_eq_true, decide_eq_true_eq, h, if_false]

theorem adjacentLevel?_moved : d.adjacentLevel? (c.moved k) = d.adjacentLevel? c := by
  rw [adjacentLevel?, adjacentLevel?, Cursor.after_moved, List.head?_map]
  cases c.after.head? with
  | none => rfl
  | some sibling =>
      have hrow : (sibling.label.moved k).start.row ≤ lastRow c.focus + k + 1 ↔
          sibling.label.start.row ≤ lastRow c.focus + 1 := by
        change sibling.label.start.row + k ≤ _ ↔ _
        omega
      simp only [Option.map_some, Option.bind_eq_bind, Option.bind_some, Cursor.moved,
        lastRow_moved, SyntaxTree.label_moved, hrow, declarationLevel?_moved]

theorem headsModule_moved : d.headsModule (c.moved k) = d.headsModule c := by
  have htop : (d.docstringStatement? (c.moved k)).getD (c.moved k) =
      ((d.docstringStatement? c).getD c).moved k := by
    rw [docstringStatement?_moved]
    cases d.docstringStatement? c <;> rfl
  rw [headsModule, headsModule, htop, opensParent_moved, Cursor.parent?_moved, Option.map_map]
  simp only [Function.comp_def, Cursor.kind_moved]

theorem level_moved : d.level (c.moved k) = d.level c := by
  rw [level, level, docstringLevel?_moved, enclosingLevel?_moved, adjacentLevel?_moved,
    headsModule_moved]

theorem className_moved : d.className (c.moved k) = d.className c := by
  have hclass : (c.ancestors.map (SyntaxTree.moved k)).find? (fun t => d.classes.contains t.kind) =
      (c.ancestors.find? fun t => d.classes.contains t.kind).map (.moved k) := by
    rw [List.find?_map]
    simp only [Function.comp_def, SyntaxTree.kind_moved]
  rw [className, className, Cursor.ancestors_moved, hclass]
  cases c.ancestors.find? fun t => d.classes.contains t.kind with
  | none => rfl
  | some t =>
      rw [Option.map_some]
      simp only [SyntaxTree.childBy?_moved, Option.map_map, Function.comp_def,
        SyntaxTree.label_moved]
      rfl

end Constructs

theorem Cursor.context_moved (k : Nat) (language : Option Language) (c : Cursor) :
    (c.moved k).context language = c.context language := by
  rw [context, context]
  split
  · rw [Constructs.context, Constructs.context, Constructs.level_moved, Constructs.className_moved]
  · rfl

/-! ## Selection -/

theorem Cursor.opensBody_moved (k : Nat) (c : Cursor) : (c.moved k).opensBody = c.opensBody := by
  rw [opensBody, opensBody, kind_moved, before_moved, List.isEmpty_map, parent?_moved]
  cases c.parent? with
  | none => rfl
  | some body =>
      simp only [Option.map_some, kind_moved, label_moved, parent?_moved]
      cases body.parent? with
      | none => rfl
      | some owner =>
          simp only [Option.map_some, kind_moved]
          rfl

theorem Cursor.isDocstring_moved (k : Nat) (c : Cursor) :
    (c.moved k).isDocstring = c.isDocstring := by
  rw [isDocstring, isDocstring, kind_moved, parent?_moved]
  cases c.parent? with
  | none => rfl
  | some statement =>
      rw [Option.map_some]
      simp only [opensBody_moved]

theorem Language.captureKind?_moved (k : Nat) (language : Language) (c : Cursor) :
    language.captureKind? (c.moved k) = language.captureKind? c := by
  cases language with
  | java => simp only [captureKind?, Cursor.kind_moved]
  | python => simp only [captureKind?, Cursor.kind_moved, Cursor.isDocstring_moved]
  | pharo => rfl

namespace SyntaxTree

/-- A selected node, moved. -/
def movedChoice (k : Nat) (u : CaptureKind × Cursor) : CaptureKind × Cursor := (u.1, u.2.moved k)

theorem ofKind_moved (k : Nat) (language : Language) (t : SyntaxTree) (kind : CaptureKind) :
    (t.moved k).ofKind language kind = (t.ofKind language kind).map (movedChoice k) := by
  rw [ofKind, ofKind, cursors_moved, List.filter_map, List.map_map, List.map_map]
  simp only [Function.comp_def, Language.captureKind?_moved]
  rfl

theorem range_moved (k : Nat) (t : SyntaxTree) :
    (t.moved k).range = (t.range.1 + k, t.range.2 + k) := by
  rw [range, label_moved]
  rfl

theorem rangeBefore_add (k : Nat) (a b : Nat × Nat) :
    rangeBefore (a.1 + k, a.2 + k) (b.1 + k, b.2 + k) = rangeBefore a b := by
  simp only [rangeBefore, Nat.add_lt_add_iff_right, Nat.add_right_cancel_iff,
    Bool.beq_eq_decide_eq]

theorem range_beq_moved (k : Nat) (a b : Nat × Nat) :
    ((a.1 + k, a.2 + k) == (b.1 + k, b.2 + k)) = (a == b) := by
  rw [Bool.eq_iff_iff, beq_iff_eq, beq_iff_eq, Prod.mk.injEq, Nat.add_right_cancel_iff,
    Nat.add_right_cancel_iff, Prod.ext_iff]

/-- The same nodes are selected in a moved tree, in the same order. -/
theorem selection_moved (k : Nat) (language : Language) (t : SyntaxTree) :
    (t.moved k).selection language = (t.selection language).map (movedChoice k) := by
  have hfound : [CaptureKind.line, .block, .docstring].flatMap ((t.moved k).ofKind language) =
      ([CaptureKind.line, .block, .docstring].flatMap (t.ofKind language)).map (movedChoice k) := by
    rw [List.map_flatMap]
    exact congrArg (List.flatMap · _) (funext fun kind => ofKind_moved k language t kind)
  have hdistinct : ∀ us : List (CaptureKind × Cursor),
      Sequence.distinctBy (·.2.focus.range) (us.map (movedChoice k)) =
        (Sequence.distinctBy (·.2.focus.range) us).map (movedChoice k) :=
    Sequence.distinctBy_map fun u v => by
      simp only [movedChoice, Cursor.moved, range_moved]
      exact range_beq_moved k _ _
  rw [selection, selection, hfound]
  simp only [hdistinct]
  refine Sequence.sort_map (fun u v => ?_) _
  rw [movedChoice, movedChoice, Cursor.moved, Cursor.moved, range_moved, range_moved,
    rangeBefore_add]

end SyntaxTree

end Marginalia
