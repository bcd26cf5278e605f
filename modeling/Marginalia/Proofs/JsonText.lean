import Marginalia.Proofs.JsonScalars

/-!
JSON texts. A relation says which texts spell a value; the reader reads all of them, and the two
layouts of the writer are among them.
-/

namespace Marginalia.Json

/-! ## The texts of a value -/

/-- White space between the parts of a text. -/
def AllSpace (w : Text) : Prop := ∀ c ∈ w, isSpace c = true

mutual
/-- The text spells the value, with filled containers nested no deeper than said. White space is
free inside of containers. -/
inductive Spells : Nat → Json → Text → Prop where
  | null {d} : Spells d .null "null"
  | bool {d} (b : Bool) : Spells d (.bool b) (scalarText (.bool b))
  | int {d} (n : Int) : Spells d (.int n) (Text.ofInt n)
  | string {d} (t : Text) : Spells d (.string t) (stringText t)
  | emptyArray {d} : Spells d (.array []) "[]"
  | array {d items before text} (hb : AllSpace before) (h : SpellsItems d items text) :
      Spells (d + 1) (.array items) ('[' :: (before ++ text))
  | emptyObject {d} : Spells d (.object []) ['{', '}']
  | object {d fields before text} (hb : AllSpace before) (h : SpellsFields d fields text) :
      Spells (d + 1) (.object fields) ('{' :: (before ++ text))

/-- The text spells at least one item, and the closing bracket behind the last one. -/
inductive SpellsItems : Nat → List Json → Text → Prop where
  | last {d v t after} (hv : Spells d v t) (ha : AllSpace after) :
      SpellsItems d [v] (t ++ (after ++ [']']))
  | cons {d v vs t after before rest} (hv : Spells d v t) (ha : AllSpace after)
      (hb : AllSpace before) (hs : SpellsItems d vs rest) :
      SpellsItems d (v :: vs) (t ++ (after ++ ',' :: (before ++ rest)))

/-- The text spells at least one field, and the closing bracket behind the last one. -/
inductive SpellsFields : Nat → List (Text × Json) → Text → Prop where
  | last {d k v t middle after} (hm : AllSpace middle) (hv : Spells d v t)
      (ha : AllSpace after) :
      SpellsFields d [(k, v)] (stringText k ++ ':' :: (middle ++ (t ++ (after ++ ['}']))))
  | cons {d k v fs t middle after before rest} (hm : AllSpace middle) (hv : Spells d v t)
      (ha : AllSpace after) (hb : AllSpace before) (hs : SpellsFields d fs rest) :
      SpellsFields d ((k, v) :: fs)
        (stringText k ++ ':' :: (middle ++ (t ++ (after ++ ',' :: (before ++ rest)))))
end

/-! ## White space -/

theorem skipSpace_append {w : Text} (h : AllSpace w) (cs : Text) :
    skipSpace (w ++ cs) = skipSpace cs :=
  List.dropWhile_append_of_pos h

theorem skipSpace_cons {c : Char} (h : isSpace c = false) (cs : Text) :
    skipSpace (c :: cs) = c :: cs :=
  List.dropWhile_cons_of_neg (by rw [h]; exact Bool.false_ne_true)

theorem readValue_space_append (d : Nat) {w : Text} (h : AllSpace w) (cs : Text) :
    readValue d (w ++ cs) = readValue d cs := by
  rw [readValue, readValue, skipSpace_append h]

theorem readField_space_append (value : Text → Option (Json × Text)) {w : Text} (h : AllSpace w)
    (cs : Text) : readField value (w ++ cs) = readField value cs := by
  rw [readField, readField, skipSpace_append h]

theorem readItems_space_append {α : Type} {item : Text → Option (α × Text)} {w : Text}
    (hi : ∀ cs, item (w ++ cs) = item cs) (close : Char) (bound : Nat) (cs : Text) :
    readItems item close bound (w ++ cs) = readItems item close bound cs := by
  cases bound with
  | zero => rfl
  | succ bound => rw [readItems, readItems, hi]

/-! ## First characters -/

theorem head_ofInt (n : Int) : ∃ c cs, Text.ofInt n = c :: cs ∧
    (Text.isAsciiDigit c = true ∨ c = '-') := by
  cases n with
  | ofNat k =>
      obtain ⟨c, cs, h⟩ := List.exists_cons_of_ne_nil (Nat.toDigits_ne_nil (n := k) (b := 10))
      exact ⟨c, cs, h, .inl (isAsciiDigit_toDigits (n := k) (h ▸ List.mem_cons_self))⟩
  | negSucc k => exact ⟨'-', _, rfl, .inr rfl⟩

/-- A character that begins an integer begins nothing else. -/
theorem ne_of_begins_int {c : Char} (h : Text.isAsciiDigit c = true ∨ c = '-') :
    isSpace c = false ∧ c ≠ ']' ∧ c ≠ '[' ∧ c ≠ '{' := by
  have hne : ∀ d, Text.isAsciiDigit d = false → d ≠ '-' → c ≠ d := by
    rintro d hd hm rfl
    rcases h with h | h
    · rw [hd] at h
      cases h
    · exact hm h
  refine ⟨?_, hne _ (by decide) (by decide), hne _ (by decide) (by decide),
    hne _ (by decide) (by decide)⟩
  simp only [isSpace, Bool.or_eq_false_iff, beq_eq_false_iff_ne]
  refine ⟨⟨⟨?_, ?_⟩, ?_⟩, ?_⟩ <;> exact hne _ (by decide) (by decide)

theorem Spells.head {d : Nat} {v : Json} {t : Text} (h : Spells d v t) :
    ∃ c cs, t = c :: cs ∧ isSpace c = false ∧ c ≠ ']' := by
  cases h with
  | null => exact ⟨_, _, rfl, rfl, by decide⟩
  | bool b => cases b <;> exact ⟨_, _, rfl, rfl, by decide⟩
  | int n =>
      obtain ⟨c, cs, hn, hc⟩ := head_ofInt n
      obtain ⟨hs, hb, -⟩ := ne_of_begins_int hc
      exact ⟨c, cs, hn, hs, hb⟩
  | string t => exact ⟨_, _, rfl, rfl, by decide⟩
  | emptyArray => exact ⟨_, _, rfl, rfl, by decide⟩
  | array _ _ => exact ⟨_, _, rfl, rfl, by decide⟩
  | emptyObject => exact ⟨_, _, rfl, rfl, by decide⟩
  | object _ _ => exact ⟨_, _, rfl, rfl, by decide⟩

theorem SpellsItems.head {d : Nat} {vs : List Json} {t : Text} (h : SpellsItems d vs t) :
    ∃ c cs, t = c :: cs ∧ isSpace c = false ∧ c ≠ ']' := by
  cases h with
  | last hv _ =>
      obtain ⟨c, cs, rfl, hs, hc⟩ := hv.head
      exact ⟨c, _, rfl, hs, hc⟩
  | cons hv _ _ _ =>
      obtain ⟨c, cs, rfl, hs, hc⟩ := hv.head
      exact ⟨c, _, rfl, hs, hc⟩

theorem SpellsFields.head {d : Nat} {fs : List (Text × Json)} {t : Text}
    (h : SpellsFields d fs t) : ∃ cs, t = '"' :: cs := by
  cases h with
  | last _ _ _ => exact ⟨_, rfl⟩
  | cons _ _ _ _ _ => exact ⟨_, rfl⟩

/-! ## Reading -/

theorem readValue_scalar (d : Nat) {c : Char} (hs : isSpace c = false) (ha : c ≠ '[')
    (ho : c ≠ '{') (cs : Text) : readValue d (c :: cs) = readScalar (c :: cs) := by
  rw [readValue, skipSpace_cons hs]
  split
  · rename_i h
    exact absurd (List.cons.inj h).1 ha
  · rename_i h
    exact absurd (List.cons.inj h).1 ho
  · rfl

theorem readField_stringText (value : Text → Option (Json × Text)) (k : Text) (cs : Text) :
    readField value (stringText k ++ ':' :: cs) =
      (value cs).map fun (v, rest) => ((k, v), rest) := by
  rw [stringText_append, readField, skipSpace_cons rfl]
  simp only [readString_flatMap_escapeChar, skipSpace_cons (c := ':') rfl]

/-- One item and the closing bracket. -/
theorem readItems_last {α : Type} {item : Text → Option (α × Text)} {close : Char} {cs : Text}
    {x : α} {after rest : Text} (hs : isSpace close = false) (hc : close ≠ ',')
    (ha : AllSpace after) (hx : item cs = some (x, after ++ close :: rest)) (bound : Nat) :
    readItems item close (bound + 1) cs = some ([x], rest) := by
  rw [readItems, hx]
  simp only [skipSpace_append ha, skipSpace_cons hs, if_neg hc, if_true]

/-- One item, a comma, and the items behind it. -/
theorem readItems_cons {α : Type} {item : Text → Option (α × Text)} {close : Char} {cs : Text}
    {x : α} {xs : List α} {after rest more : Text} {bound : Nat} (ha : AllSpace after)
    (hx : item cs = some (x, after ++ ',' :: rest))
    (hxs : readItems item close bound rest = some (xs, more)) :
    readItems item close (bound + 1) cs = some (x :: xs, more) := by
  rw [readItems, hx]
  simp only [skipSpace_append ha, skipSpace_cons (c := ',') rfl, if_true, hxs]
  rfl

mutual
/-- Every text that spells a value is read as that value. -/
theorem readValue_spells {d : Nat} {v : Json} {t rest : Text} (h : Spells d v t)
    (hr : Ends rest) : readValue d (t ++ rest) = some (v, rest) := by
  match h with
  | .null => exact readValue_scalar d rfl (by decide) (by decide) _
  | .bool b => cases b <;> exact readValue_scalar d rfl (by decide) (by decide) _
  | .int n =>
      obtain ⟨c, cs, hn, hc⟩ := head_ofInt n
      obtain ⟨hs, -, ha, ho⟩ := ne_of_begins_int hc
      have hread := readScalar_ofInt n hr
      rw [hn] at hread ⊢
      exact (readValue_scalar d hs ha ho _).trans hread
  | .string t =>
      have hread := readScalar_stringText t rest
      exact (readValue_scalar d rfl (by decide) (by decide) _).trans hread
  | .emptyArray =>
      rw [readValue]
      rfl
  | .array hb hitems =>
      obtain ⟨c, cs, htext, hs, hc⟩ := hitems.head
      have hread := readItems_spells hitems (Nat.le_add_right _ rest.length) rest
      rw [List.cons_append, List.append_assoc, readValue, skipSpace_cons rfl]
      simp only [skipSpace_append hb]
      rw [← List.length_append] at hread
      rw [htext, List.cons_append] at hread ⊢
      rw [skipSpace_cons hs]
      split
      · rename_i h
        exact absurd (List.cons.inj h).1 hc
      · rw [hread]
        rfl
  | .emptyObject =>
      rw [readValue]
      rfl
  | .object hb hfields =>
      obtain ⟨cs, htext⟩ := hfields.head
      have hread := readFields_spells hfields (Nat.le_add_right _ rest.length) rest
      rw [List.cons_append, List.append_assoc, readValue, skipSpace_cons rfl]
      simp only [skipSpace_append hb]
      rw [← List.length_append] at hread
      rw [htext, List.cons_append] at hread ⊢
      rw [skipSpace_cons rfl]
      split
      · rename_i h
        exact absurd (List.cons.inj h).1 (by decide)
      · rw [hread]
        rfl

theorem readItems_spells {d : Nat} {vs : List Json} {t : Text} (h : SpellsItems d vs t)
    {bound : Nat} (hb : t.length ≤ bound) (rest : Text) :
    readItems (readValue d) ']' bound (t ++ rest) = some (vs, rest) := by
  match h with
  | .last hv ha =>
      obtain ⟨bound, rfl⟩ : ∃ b, bound = b + 1 := ⟨bound - 1, by simp at hb; omega⟩
      rw [List.append_assoc, List.append_assoc, List.singleton_append]
      have hx := readValue_spells hv (.space_append ha (.cons (c := ']') (by decide) rest))
      exact readItems_last rfl (by decide) ha hx bound
  | .cons hv ha hbefore hs =>
      obtain ⟨bound, rfl⟩ : ∃ b, bound = b + 1 := ⟨bound - 1, by simp at hb; omega⟩
      have hmore := readItems_spells hs (show _ ≤ bound by simp at hb; omega) rest
      rw [← readItems_space_append (readValue_space_append d hbefore)] at hmore
      simp only [List.append_assoc, List.cons_append]
      refine readItems_cons ha ?_ hmore
      exact readValue_spells hv (.space_append ha (.cons (by decide) _))

theorem readFields_spells {d : Nat} {fs : List (Text × Json)} {t : Text}
    (h : SpellsFields d fs t) {bound : Nat} (hb : t.length ≤ bound) (rest : Text) :
    readItems (readField (readValue d)) '}' bound (t ++ rest) = some (fs, rest) := by
  match h with
  | .last hm hv ha =>
      obtain ⟨bound, rfl⟩ : ∃ b, bound = b + 1 := ⟨bound - 1, by simp at hb; omega⟩
      simp only [List.append_assoc, List.cons_append, List.nil_append]
      refine readItems_last rfl (by decide) ha ?_ bound
      rw [readField_stringText, readValue_space_append d hm,
        readValue_spells hv (.space_append ha (.cons (by decide) _))]
      rfl
  | .cons hm hv ha hbefore hs =>
      obtain ⟨bound, rfl⟩ : ∃ b, bound = b + 1 := ⟨bound - 1, by simp at hb; omega⟩
      have hmore := readFields_spells hs (show _ ≤ bound by simp at hb; omega) rest
      rw [← readItems_space_append (readField_space_append _ hbefore)] at hmore
      simp only [List.append_assoc, List.cons_append]
      refine readItems_cons ha ?_ hmore
      rw [readField_stringText, readValue_space_append d hm,
        readValue_spells hv (.space_append ha (.cons (by decide) _))]
      rfl
end

theorem parse?_spells {v : Json} {t : Text} (h : Spells maxDepth v t) : parse? t = some v := by
  have hread := readValue_spells h (show Ends [] by rintro c ⟨⟩)
  rw [List.append_nil] at hread
  rw [parse?, hread]
  rfl

/-! ## Writing -/

/-- The value has no number with a fraction, and filled containers are nested in it no deeper than
said. -/
def Fits : Nat → Json → Prop
  | _, .float _ => False
  | _, .array [] => True
  | _, .object [] => True
  | 0, .array _ => False
  | 0, .object _ => False
  | d + 1, .array vs => ∀ v ∈ vs, Fits d v
  | d + 1, .object fs => ∀ f ∈ fs, Fits d f.2
  | _, _ => True

theorem allSpace_nil : AllSpace [] := fun _ h => absurd h List.not_mem_nil

theorem allSpace_newLine (depth : Nat) : AllSpace (newLine depth) := by
  intro c hc
  rcases List.mem_cons.mp hc with rfl | hc
  · rfl
  · rw [(List.mem_replicate.mp hc).2]
    rfl

section Compact

variable {d : Nat}

theorem spellsItems_compact {v : Json} {vs : List Json}
    (h : ∀ w ∈ v :: vs, Spells d w w.compact) :
    SpellsItems d (v :: vs) (compactItems (v :: vs) ++ [']']) := by
  induction vs generalizing v with
  | nil => exact .last (h v List.mem_cons_self) allSpace_nil
  | cons w vs ih =>
      have hrest := ih fun u hu => h u (List.mem_cons_of_mem v hu)
      have hall := SpellsItems.cons (h v List.mem_cons_self) allSpace_nil allSpace_nil hrest
      simpa only [compactItems, List.append_assoc, List.cons_append, List.nil_append] using hall

theorem spellsFields_compact {f : Text × Json} {fs : List (Text × Json)}
    (h : ∀ g ∈ f :: fs, Spells d g.2 g.2.compact) :
    SpellsFields d (f :: fs) (compactFields (f :: fs) ++ ['}']) := by
  induction fs generalizing f with
  | nil =>
      have hall := SpellsFields.last (k := f.1) allSpace_nil (h f List.mem_cons_self) allSpace_nil
      simpa only [compactFields, List.append_assoc, List.cons_append, List.nil_append] using hall
  | cons g fs ih =>
      have hrest := ih fun u hu => h u (List.mem_cons_of_mem f hu)
      have hall := SpellsFields.cons (k := f.1) allSpace_nil (h f List.mem_cons_self) allSpace_nil
        allSpace_nil hrest
      simpa only [compactFields, List.append_assoc, List.cons_append, List.nil_append] using hall

end Compact

/-- The layout in one line spells the value. -/
theorem spells_compact {d : Nat} {v : Json} (h : v.Fits d) : Spells d v v.compact := by
  match d, v, h with
  | _, .null, _ => exact .null
  | _, .bool b, _ => exact .bool b
  | _, .int n, _ => exact .int n
  | d, .float x, h => exact absurd h (by simp [Fits])
  | _, .string t, _ => exact .string t
  | _, .array [], _ => exact .emptyArray
  | _, .object [], _ => exact .emptyObject
  | d + 1, .array (w :: vs), h =>
      have hall := Spells.array allSpace_nil (spellsItems_compact fun u hu => spells_compact (h u hu))
      rw [List.nil_append] at hall
      exact hall
  | d + 1, .object (f :: fs), h =>
      have hall := Spells.object allSpace_nil
        (spellsFields_compact fun g hg => spells_compact (h g hg))
      rw [List.nil_append] at hall
      exact hall

section Indented

variable {d : Nat}

theorem spellsItems_indented (depth : Nat) {v : Json} {vs : List Json} {after : Text}
    (ha : AllSpace after) (h : ∀ w ∈ v :: vs, Spells d w (w.indentedAt depth)) :
    ∃ text, indentedItems depth (v :: vs) ++ (after ++ [']']) = newLine depth ++ text ∧
      SpellsItems d (v :: vs) text := by
  induction vs generalizing v with
  | nil =>
      refine ⟨_, ?_, .last (h v List.mem_cons_self) ha⟩
      simp only [indentedItems, List.append_assoc]
  | cons w vs ih =>
      obtain ⟨text, htext, hrest⟩ := ih fun u hu => h u (List.mem_cons_of_mem v hu)
      refine ⟨_, ?_, .cons (h v List.mem_cons_self) allSpace_nil (allSpace_newLine depth) hrest⟩
      rw [← htext]
      simp only [indentedItems, List.append_assoc, List.cons_append, List.nil_append]

theorem spellsFields_indented (depth : Nat) {f : Text × Json} {fs : List (Text × Json)}
    {after : Text} (ha : AllSpace after)
    (h : ∀ g ∈ f :: fs, Spells d g.2 (g.2.indentedAt depth)) :
    ∃ text, indentedFields depth (f :: fs) ++ (after ++ ['}']) = newLine depth ++ text ∧
      SpellsFields d (f :: fs) text := by
  have hcolon : AllSpace [' '] := fun c hc => by rw [List.mem_singleton.mp hc]; rfl
  induction fs generalizing f with
  | nil =>
      refine ⟨_, ?_, .last (k := f.1) hcolon (h f List.mem_cons_self) ha⟩
      simp only [indentedFields, List.append_assoc]
      rfl
  | cons g fs ih =>
      obtain ⟨text, htext, hrest⟩ := ih fun u hu => h u (List.mem_cons_of_mem f hu)
      refine ⟨_, ?_, .cons (k := f.1) hcolon (h f List.mem_cons_self) allSpace_nil
        (allSpace_newLine depth) hrest⟩
      rw [← htext]
      simp only [indentedFields, List.append_assoc, List.cons_append, List.nil_append]
      rfl

end Indented

/-- The layout with an indent spells the value. -/
theorem spells_indentedAt (depth : Nat) {d : Nat} {v : Json} (h : v.Fits d) :
    Spells d v (v.indentedAt depth) := by
  match d, v, h with
  | _, .null, _ => exact .null
  | _, .bool b, _ => exact .bool b
  | _, .int n, _ => exact .int n
  | d, .float x, h => exact absurd h (by simp [Fits])
  | _, .string t, _ => exact .string t
  | _, .array [], _ => exact .emptyArray
  | _, .object [], _ => exact .emptyObject
  | d + 1, .array (w :: vs), h =>
      obtain ⟨text, htext, hitems⟩ := spellsItems_indented (depth + 1)
        (allSpace_newLine depth) fun u hu => spells_indentedAt (depth + 1) (h u hu)
      have hall := Spells.array (allSpace_newLine (depth + 1)) hitems
      rw [← htext] at hall
      simpa only [indentedAt, List.append_assoc, List.cons_append] using hall
  | d + 1, .object (f :: fs), h =>
      obtain ⟨text, htext, hfields⟩ := spellsFields_indented (depth + 1)
        (allSpace_newLine depth) fun g hg => spells_indentedAt (depth + 1) (h g hg)
      have hall := Spells.object (allSpace_newLine (depth + 1)) hfields
      rw [← htext] at hall
      simpa only [indentedAt, List.append_assoc, List.cons_append] using hall

/-! ## Written and read back -/

theorem parse?_compact {v : Json} (h : v.Fits maxDepth) : parse? v.compact = some v :=
  parse?_spells (spells_compact h)

theorem parse?_indented {v : Json} (h : v.Fits maxDepth) : parse? v.indented = some v :=
  parse?_spells (spells_indentedAt 0 h)

end Marginalia.Json
