import Marginalia.Proofs.Utf8
import Marginalia.Proofs.Validity
import Mathlib.Logic.Relation

/-!
Two spellings of one batch. Four fields of a record go by two names, and a tag that stands for
nothing may as well be left out. What is read is the same, and valid.
-/

namespace Marginalia

/-! ## Readings -/

namespace Validated

variable {α β : Type}

/-- What the first reading gives, the second gives as well. The issues may differ, as they tell the
name under which a field was found. -/
def Keeps (v v' : Validated α) : Prop := ∀ x, v = .valid x → v' = .valid x

theorem Keeps.refl {v : Validated α} : Keeps v v := fun _ h => h

theorem Keeps.trans {u v w : Validated α} (h : Keeps u v) (h' : Keeps v w) : Keeps u w :=
  fun x hx => h' x (h x hx)

theorem Keeps.map {v v' : Validated α} (h : Keeps v v') (f : α → β) :
    Keeps (f <$> v) (f <$> v') := by
  intro y hy
  obtain ⟨x, hx, rfl⟩ := map_eq_valid.mp hy
  exact map_eq_valid.mpr ⟨x, h x hx, rfl⟩

theorem Keeps.seq {f f' : Validated (α → β)} {v v' : Validated α} (hf : Keeps f f')
    (hv : Keeps v v') : Keeps (f <*> v) (f' <*> v') := by
  intro y hy
  obtain ⟨g, x, hg, hx, rfl⟩ := seq_eq_valid.mp hy
  exact seq_eq_valid.mpr ⟨g, x, hf g hg, hv x hx, rfl⟩

theorem Keeps.andThen {v v' : Validated α} (h : Keeps v v') (f : α → Validated β) :
    Keeps (v.andThen f) (v'.andThen f) := by
  intro y hy
  obtain ⟨x, hx, hfx⟩ := andThen_eq_valid.mp hy
  exact andThen_eq_valid.mpr ⟨x, h x hx, hfx⟩

theorem Keeps.within {v v' : Validated α} (h : Keeps v v') (place : Place) :
    Keeps (v.within place) (v'.within place) :=
  fun x hx => within_eq_valid.mpr (h x (within_eq_valid.mp hx))

theorem keeps_itemsFrom {read : Json → Validated α} {vs vs' : List Json}
    (h : List.Forall₂ (fun v v' => Keeps (read v) (read v')) vs vs') (start : Nat) :
    Keeps (itemsFrom read start vs) (itemsFrom read start vs') := by
  induction h generalizing start with
  | nil => exact Keeps.refl
  | cons hv _ ih => exact ((hv.within _).map _).seq (ih (start + 1))

end Validated

open Validated (Keeps)

/-! ## Fields -/

namespace Json

variable {fields fields' : List (Text × Json)} {names : List Text} {name other key n : Text}
  {g : Json → Json}

/-- The value under the first of the names that is present. -/
def value? (fields : List (Text × Json)) (names : List Text) : Option Json :=
  names.findSome? fun n => lastField? n fields

theorem value?_eq_map : value? fields names =
    (names.findSome? fun n => (lastField? n fields).map fun v => (n, v)).map Prod.snd := by
  induction names with
  | nil => rfl
  | cons n names ih =>
      rw [value?, List.findSome?_cons, List.findSome?_cons]
      cases lastField? n fields with
      | none => exact ih
      | some v => rfl

/-- A field is read by its value, whatever the name. -/
theorem fieldAs_eq_valid {α : Type} {absent : Validated α} {read : Json → Validated α} {x : α} :
    fieldAs fields names absent read = .valid x ↔
      ((value? fields names).map read).getD absent = .valid x := by
  rw [value?_eq_map, fieldAs]
  split
  · rename_i hfound
    rw [hfound]
    exact Validated.within_eq_valid
  · rename_i hfound
    rw [hfound]
    exact Validated.within_eq_valid

theorem keeps_fieldAs {α : Type} {absent : Validated α} {read : Json → Validated α}
    (h : (value? fields' names).map read = (value? fields names).map read) :
    Keeps (fieldAs fields names absent read) (fieldAs fields' names absent read) := by
  intro x hx
  rwa [fieldAs_eq_valid, h, ← fieldAs_eq_valid]

theorem lastField?_cons (f : Text × Json) : lastField? n (f :: fields) =
    (lastField? n fields).or (if f.1 = n then some f.2 else none) := by
  simp only [lastField?, List.reverse_cons, List.find?_append, List.find?_singleton, beq_iff_eq]
  cases fields.reverse.find? (·.1 == n) with
  | none => split <;> rfl
  | some found => rfl

/-- The fields with another name for one of them. -/
def renameKey (name other : Text) (fields : List (Text × Json)) : List (Text × Json) :=
  fields.map fun f => (if f.1 = name then other else f.1, f.2)

/-- The fields with the value of one of them changed. -/
def changeValue (key : Text) (g : Json → Json) (fields : List (Text × Json)) :
    List (Text × Json) :=
  fields.map fun f => (f.1, if f.1 = key then g f.2 else f.2)

theorem lastField?_changeValue : lastField? n (changeValue key g fields) =
    if n = key then (lastField? n fields).map g else lastField? n fields := by
  induction fields with
  | nil => simp [changeValue, lastField?]
  | cons f fields ih =>
      rw [changeValue, List.map_cons, lastField?_cons, lastField?_cons, ← changeValue, ih]
      by_cases hn : f.1 = n
      · subst hn
        split <;> cases lastField? f.1 fields <;> simp [*]
      · simp [hn]

/-- A key that is not present takes the place of another one. -/
theorem lastField?_renameKey (hother : other ∉ fields.map Prod.fst) :
    lastField? n (renameKey name other fields) =
      if n = other then lastField? name fields
      else if n = name then none else lastField? n fields := by
  induction fields with
  | nil => simp [renameKey, lastField?]
  | cons f fields ih =>
      rw [List.map_cons, List.mem_cons, not_or] at hother
      obtain ⟨hne, hrest⟩ := hother
      rw [renameKey, List.map_cons, lastField?_cons, lastField?_cons, lastField?_cons, ← renameKey,
        ih hrest]
      -- What is left compares the key in front with the three names.
      grind

theorem lastField?_of_not_mem (h : n ∉ fields.map Prod.fst) : lastField? n fields = none := by
  rw [lastField?, Option.map_eq_none_iff, List.find?_eq_none]
  rintro ⟨own, v⟩ hf heq
  exact h (List.mem_map.mpr ⟨_, List.mem_reverse.mp hf, eq_of_beq heq⟩)

theorem value?_congr (h : ∀ n ∈ names, lastField? n fields' = lastField? n fields) :
    value? fields' names = value? fields names := by
  induction names with
  | nil => rfl
  | cons n names ih =>
      obtain ⟨hn, hnames⟩ := List.forall_mem_cons.mp h
      have hrest := ih hnames
      unfold value? at hrest ⊢
      rw [List.findSome?_cons, List.findSome?_cons, hn, hrest]

theorem value?_changeValue (h : key ∉ names) :
    value? (changeValue key g fields) names = value? fields names := by
  refine value?_congr fun n hn => ?_
  have hne : n ≠ key := fun he => h (he ▸ hn)
  rw [lastField?_changeValue, if_neg hne]

theorem value?_changeValue_self :
    value? (changeValue key g fields) [key] = (value? fields [key]).map g := by
  simp only [value?, List.findSome?_singleton, lastField?_changeValue, if_true]

/-- A renamed field is found if it is looked for under both names; no other field is affected. -/
theorem value?_renameKey (hother : other ∉ fields.map Prod.fst) (hne : name ≠ other)
    (h : names = [name, other] ∨ name ∉ names ∧ other ∉ names) :
    value? (renameKey name other fields) names = value? fields names := by
  rcases h with rfl | ⟨hname, hother'⟩
  · simp only [value?, List.findSome?_cons, List.findSome?_nil, lastField?_renameKey hother,
      lastField?_of_not_mem hother, if_true, if_neg hne]
  · refine value?_congr fun n hn => ?_
    have hn' : n ≠ name := fun he => hname (he ▸ hn)
    have hn'' : n ≠ other := fun he => hother' (he ▸ hn)
    rw [lastField?_renameKey hother, if_neg hn'', if_neg hn']

/-- The list without the items that stand for nothing. -/
def dropFalsy : Json → Json
  | array vs => array (vs.filter fun v => !v.isFalsy)
  | v => v

end Json

/-! ## Records -/

namespace Record

variable {fields fields' : List (Text × Json)} {v v' : Json}

/-- The names of each field. -/
def fieldNames : List (List Text) := [
  ["id"], ["language"], ["content"], ["className", "class_name"],
  ["relativePath", "relative_path"], ["level"], ["type"], ["lineNumber", "line_number"],
  ["index"], ["lastCommitDate", "last_commit_date"]]

/-- The fields that have another name than the stored one. -/
def otherNames : List (Text × Text) := [
  ("className", "class_name"), ("relativePath", "relative_path"), ("lineNumber", "line_number"),
  ("lastCommitDate", "last_commit_date")]

/-- Another spelling of a record: a field has its other name, or the tags that stand for nothing are
left out. -/
inductive Respells : Json → Json → Prop
  | renamed (name other : Text) (fields : List (Text × Json)) (hnames : (name, other) ∈ otherNames)
      (hother : other ∉ fields.map Prod.fst) :
      Respells (.object fields) (.object (Json.renameKey name other fields))
  | thinned (fields : List (Text × Json)) :
      Respells (.object fields) (.object (Json.changeValue "type" Json.dropFalsy fields))

theorem readTags_dropFalsy (v : Json) : readTags v.dropFalsy = readTags v := by
  cases v with
  | array vs =>
      change Validated.items Json.asString _ = Validated.items Json.asString _
      rw [List.filter_filter]
      simp only [Bool.and_self]
  | _ => rfl

theorem keeps_readFields
    (h : ∀ names ∈ fieldNames, names ≠ ["type"] →
      Json.value? fields' names = Json.value? fields names)
    (htags : (Json.value? fields' ["type"]).map readTags =
      (Json.value? fields ["type"]).map readTags) :
    Keeps (readFields fields) (readFields fields') := by
  have hfield : ∀ {α : Type} (names : List Text) (absent : Validated α) (read : Json → Validated α),
      names ∈ fieldNames → names ≠ ["type"] →
      Keeps (Json.fieldAs fields names absent read) (Json.fieldAs fields' names absent read) :=
    fun names _ _ hn hne => Json.keeps_fieldAs (congrArg _ (h names hn hne))
  unfold readFields
  refine (((((((((Keeps.map ?_ _).seq ?_).seq ?_).seq ?_).seq ?_).seq ?_).seq
    (Json.keeps_fieldAs htags)).seq ?_).seq ?_).seq ?_
  all_goals exact hfield _ _ _ (by decide) (by decide)

theorem keeps_ofJson_of_respells (h : Respells v v') : Keeps (ofJson v) (ofJson v') := by
  cases h with
  | renamed name other fields hnames hother =>
      have hsplit : ∀ pair ∈ otherNames, pair.1 ≠ pair.2 ∧ ∀ names ∈ fieldNames,
          names = [pair.1, pair.2] ∨ pair.1 ∉ names ∧ pair.2 ∉ names := by decide
      obtain ⟨hne, hsplit⟩ := hsplit _ hnames
      have hvalue : ∀ names ∈ fieldNames,
          Json.value? (Json.renameKey name other fields) names = Json.value? fields names :=
        fun names hn => Json.value?_renameKey hother hne (hsplit names hn)
      exact (keeps_readFields (fun names hn _ => hvalue names hn)
        (congrArg _ (hvalue ["type"] (by decide)))).andThen checkRows
  | thinned fields =>
      have hsplit : ∀ names ∈ fieldNames, names ≠ ["type"] → ("type" : Text) ∉ names := by decide
      refine (keeps_readFields (fun names hn hne => ?_) ?_).andThen checkRows
      · exact Json.value?_changeValue (hsplit names hn hne)
      · rw [Json.value?_changeValue_self, Option.map_map]
        exact congrFun (congrArg _ (funext readTags_dropFalsy)) _

/-- However often a record is respelled, it is read as the same. -/
theorem keeps_ofJson (h : Relation.ReflTransGen Respells v v') : Keeps (ofJson v) (ofJson v') := by
  induction h with
  | refl => exact Keeps.refl
  | tail _ hstep ih => exact ih.trans (keeps_ofJson_of_respells hstep)

end Record

/-! ## Batches -/

namespace Batch

variable {v v' : Json} {fields fields' : List (Text × Json)}

def RespellsFiles (fields fields' : List (Text × Json)) : Prop :=
  List.Forall₂ (fun f f' => f'.1 = f.1 ∧ ∃ vs vs', f.2 = .array vs ∧ f'.2 = .array vs' ∧
    List.Forall₂ (Relation.ReflTransGen Record.Respells) vs vs') fields fields'

/-- Another spelling of some of the records of a batch, under the same paths. -/
def Respells (v v' : Json) : Prop :=
  ∃ fields fields', v = .object fields ∧ v' = .object fields' ∧ RespellsFiles fields fields'

theorem keeps_readFiles (h : RespellsFiles fields fields') :
    Keeps (readFiles fields) (readFiles fields') := by
  induction h with
  | nil => exact Keeps.refl
  | cons hf _ ih =>
      rename_i f f' fields fields' _
      obtain ⟨path, value⟩ := f
      obtain ⟨path', value'⟩ := f'
      obtain ⟨hpath, vs, vs', hvalue, hvalue', hvs⟩ := hf
      cases hpath
      cases hvalue
      cases hvalue'
      have hrecords : Keeps (Record.listOfJson (.array vs)) (Record.listOfJson (.array vs')) :=
        Validated.keeps_itemsFrom (hvs.imp fun _ _ => Record.keeps_ofJson) 0
      exact ((hrecords.within _).map _).seq ih

theorem keeps_ofJson (h : Respells v v') : Keeps (ofJson v) (ofJson v') := by
  obtain ⟨fields, fields', rfl, rfl, hfiles⟩ := h
  exact (keeps_readFiles hfiles).map _

/-- A text that is accepted gives valid records, and each other spelling of its value gives the
same ones. -/
theorem ofBytes_respelled {bytes : Bytes} {b : Batch} (h : ofBytes bytes = .valid b) :
    b.WellFormed ∧ ∃ v, bytes.decode?.bind Json.parse? = some v ∧ ∀ v', Respells v v' →
      ofJson v' = .valid b ∧
      ∀ bytes' : Bytes, bytes'.decode?.bind Json.parse? = some v' → ofBytes bytes' = .valid b := by
  refine ⟨wellFormed_of_ofBytes h, ?_⟩
  unfold ofBytes Bytes.readJson at h
  split at h
  · rename_i v hv
    refine ⟨v, hv, fun v' hrespells => ?_⟩
    have hread : ofJson v' = .valid b := keeps_ofJson hrespells b h
    refine ⟨hread, fun bytes' hv' => ?_⟩
    simp only [ofBytes, Bytes.readJson, hv', hread]
  · cases h

/-- A batch with one record, with the names of two of its fields and its tags left open. -/
def openText (className tags lineNumber : Text) : Text :=
  "\x7b\"/a\":[\x7b\"language\":\"java\",\"content\":\" a \",\"" ++ className ++
    "\":\"C\",\"type\":[" ++ tags ++ "],\"" ++ lineNumber ++ "\":[\"0\",true]\x7d]\x7d"

def openFields (className : Text) (tags : List Json) (lineNumber : Text) : List (Text × Json) :=
  [("language", .string "java"), ("content", .string " a "), (className, .string "C"),
    ("type", .array tags), (lineNumber, .array [.string "0", .bool true])]

/-- Tags of which two stand for nothing. -/
def looseTags : List Json := [.string "", .string "x", .null]

def oneRecord (fields : List (Text × Json)) : Json :=
  .object [("/a", .array [.object fields])]

def oneRecordBatch : Batch :=
  ⟨[("/a", [⟨0, "java", "a", "C", [], .inline, ["x"], (0, 1), (0, 0), []⟩])], by decide⟩

theorem respells_openFields : Respells (oneRecord (openFields "className" looseTags "lineNumber"))
    (oneRecord (openFields "class_name" [.string "x"] "line_number")) := by
  have hclass : Record.Respells _ (.object (openFields "class_name" looseTags "lineNumber")) :=
    .renamed "className" "class_name" (openFields "className" looseTags "lineNumber")
      (by decide) (by decide)
  have hlines : Record.Respells _ (.object (openFields "class_name" looseTags "line_number")) :=
    .renamed "lineNumber" "line_number" (openFields "class_name" looseTags "lineNumber")
      (by decide) (by decide)
  have htags : Record.Respells _ (.object (openFields "class_name" [.string "x"] "line_number")) :=
    .thinned (openFields "class_name" looseTags "line_number")
  refine ⟨_, _, rfl, rfl, .cons ⟨rfl, _, _, rfl, rfl, .cons ?_ .nil⟩ .nil⟩
  exact ((Relation.ReflTransGen.single hclass).tail hlines).tail htags

/-- Neither the tags that stand for nothing nor the names make a difference. -/
theorem ofBytes_respelled_openText :
    ofBytes (openText "className" "\"\",\"x\",null" "lineNumber").encode =
        .valid oneRecordBatch ∧
      oneRecordBatch.WellFormed ∧
      ofBytes (openText "class_name" "\"x\"" "line_number").encode = .valid oneRecordBatch := by
  have hstored : ofBytes (openText "className" "\"\",\"x\",null" "lineNumber").encode =
      .valid oneRecordBatch := by
    rw [ofBytes, Bytes.readJson, Bytes.decode?_encode]
    rfl
  obtain ⟨hvalid, v, hv, hrespelled⟩ := ofBytes_respelled hstored
  have hself : oneRecord (openFields "className" looseTags "lineNumber") = v := by
    rw [Bytes.decode?_encode] at hv
    exact Option.some.inj hv
  have hother : (Bytes.decode? (openText "class_name" "\"x\"" "line_number").encode).bind
      Json.parse? = some (oneRecord (openFields "class_name" [.string "x"] "line_number")) := by
    rw [Bytes.decode?_encode]
    rfl
  exact ⟨hstored, hvalid, (hrespelled _ (hself ▸ respells_openFields)).2 _ hother⟩

end Batch

end Marginalia
