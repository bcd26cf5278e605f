import Marginalia.Proofs.Update

/-!
Reconciliation of a classified file with the same extraction as before. Every comment is known, and
takes over the labels of the last comment with its content; nothing changes exactly if comments of
equal content have equal labels.
-/

namespace Marginalia

/-- The record with the tags and the level that a classifier or an edit gives it. -/
def Record.labelled (r : Record) (label : List Text × Level) : Record :=
  { r with tags := label.1, level := label.2 }

theorem Record.eq_of_unlabelled {r r' : Record} (h : r.unlabelled = r'.unlabelled)
    (htags : r.tags = r'.tags) (hlevel : r.level = r'.level) : r = r' := by
  cases r
  cases r'
  simp only [Record.unlabelled, Record.mk.injEq] at h
  simp only [Record.mk.injEq]
  obtain ⟨hid, hlanguage, hcontent, hclass, hpath, -, -, hrows, hcolumns, hdate⟩ := h
  exact ⟨hid, hlanguage, hcontent, hclass, hpath, hlevel, htags, hrows, hcolumns, hdate⟩

theorem Record.content_eq_of_unlabelled {r r' : Record} (h : r.unlabelled = r'.unlabelled) :
    r.content = r'.content := by
  change r.unlabelled.content = r'.unlabelled.content
  rw [h]

/-! ## The last record of a content -/

/-- Among the records the last one with the content is `r`. -/
def Record.IsLastWith (content : Text) (rs : List Record) (r : Record) : Prop :=
  ∃ front back, rs = front ++ r :: back ∧ r.content = content ∧
    ∀ later ∈ back, later.content ≠ content

namespace Reconciliation

variable {previous owns fresh : List Record} {content : Text}

theorem known?_eq_some_iff {r : Record} :
    known? previous content = some r ↔ Record.IsLastWith content previous r := by
  rw [known?, List.find?_eq_some_iff_append]
  constructor
  · rintro ⟨hcontent, back, front, hreverse, hback⟩
    refine ⟨front.reverse, back.reverse, ?_, by simpa using hcontent, ?_⟩
    · rw [← List.reverse_reverse previous, hreverse]
      simp
    · intro later hlater
      simpa using hback later (List.mem_reverse.mp hlater)
  · rintro ⟨front, back, rfl, hcontent, hback⟩
    refine ⟨by simpa using hcontent, back.reverse, front.reverse, by simp, ?_⟩
    intro later hlater
    simpa using hback later (List.mem_reverse.mp hlater)

theorem isLastWith_unique {r r' : Record} (h : Record.IsLastWith content previous r)
    (h' : Record.IsLastWith content previous r') : r = r' := by
  rw [← known?_eq_some_iff] at h h'
  exact Option.some.inj (h.symm.trans h')

theorem mem_of_isLastWith {r : Record} (h : Record.IsLastWith content previous r) :
    r ∈ previous := by
  obtain ⟨front, back, rfl, -⟩ := h
  exact List.mem_append_right front List.mem_cons_self

theorem exists_isLastWith {r : Record} (h : r ∈ previous) :
    ∃ last, Record.IsLastWith r.content previous last := by
  have hknown : (known? previous r.content).isSome = true := by
    rw [isSome_known?]
    exact decide_eq_true (List.mem_map_of_mem h)
  obtain ⟨last, hlast⟩ := Option.isSome_iff_exists.mp hknown
  exact ⟨last, known?_eq_some_iff.mp hlast⟩

/-! ## A classified file against its own extraction -/

/-- The record that is kept for one of the previous records: that record, with the labels of the
last previous record with its content. -/
structure KeptFor (previous : List Record) (own kept : Record) : Prop where
  unlabelled : kept.unlabelled = own.unlabelled
  labels : ∃ last, Record.IsLastWith own.content previous last ∧
    kept.tags = last.tags ∧ kept.level = last.level

theorem forall₂_keptFor
    (h : List.Forall₂ (fun own r => own ∈ previous ∧ own.unlabelled = r.unlabelled) owns fresh) :
    List.Forall₂ (KeptFor previous) owns (separate previous fresh).preserved := by
  induction h with
  | nil => exact .nil
  | @cons own r owns fresh hown _ ih =>
      obtain ⟨hmem, hsame⟩ := hown
      obtain ⟨last, hlast⟩ := exists_isLastWith hmem
      have hknown : known? previous r.content = some last := by
        rw [← Record.content_eq_of_unlabelled hsame]
        exact known?_eq_some_iff.mpr hlast
      have hcons : (separate previous (r :: fresh)).preserved =
          r.labelled (last.tags, last.level) :: (separate previous fresh).preserved := by
        simp only [separate, List.filterMap_cons, hknown, Option.map_some]
        rfl
      rw [hcons]
      exact .cons ⟨hsame.symm, last, hlast, rfl, rfl⟩ ih

theorem toReclassify_eq_nil_iff : (separate previous fresh).toReclassify = [] ↔
    ∀ r ∈ fresh, r.content ∈ previous.map Record.content := by
  rw [toReclassify_separate, List.map_eq_nil_iff, newTo, List.filter_eq_nil_iff]
  simp

theorem toReclassify_eq_nil
    (h : List.Forall₂ (fun own r => own ∈ previous ∧ own.unlabelled = r.unlabelled) owns fresh) :
    (separate previous fresh).toReclassify = [] := by
  rw [toReclassify_eq_nil_iff]
  intro r hr
  obtain ⟨own, hown, hmem, hsame⟩ := Sequence.of_mem_right h hr
  rw [← Record.content_eq_of_unlabelled hsame]
  exact List.mem_map_of_mem hmem

/-- Records of equal content have equal labels. -/
def LabelsAgree (rs : List Record) : Prop :=
  ∀ r ∈ rs, ∀ r' ∈ rs, r.content = r'.content → r.tags = r'.tags ∧ r.level = r'.level

/-- Everything is kept as it is exactly if no two records of one content differ in their labels. -/
theorem eq_of_keptFor_iff {kept : List Record} (h : List.Forall₂ (KeptFor previous) previous kept) :
    kept = previous ↔ LabelsAgree previous := by
  constructor
  · rintro rfl r hr r' hr' hcontent
    obtain ⟨-, last, hlast, htags, hlevel⟩ := List.forall₂_same.mp h r hr
    obtain ⟨-, last', hlast', htags', hlevel'⟩ := List.forall₂_same.mp h r' hr'
    rw [hcontent] at hlast
    obtain rfl := isLastWith_unique hlast hlast'
    exact ⟨htags.trans htags'.symm, hlevel.trans hlevel'.symm⟩
  · intro hagree
    suffices hsame : List.Forall₂ Eq previous kept from (List.forall₂_eq_eq_eq ▸ hsame).symm
    refine List.forall₂_iff_zip.mpr ⟨h.length_eq, fun {own r} hpair => ?_⟩
    obtain ⟨hsame, last, hlast, htags, hlevel⟩ := (List.forall₂_iff_zip.mp h).2 hpair
    obtain ⟨-, -, -, hcontent, -⟩ := id hlast
    obtain ⟨htags', hlevel'⟩ := hagree own (List.of_mem_zip hpair).1 last (mem_of_isLastWith hlast)
      hcontent.symm
    exact Record.eq_of_unlabelled hsame.symm (htags'.trans htags.symm) (hlevel'.trans hlevel.symm)

theorem forall₂_mapIdx_labelled (extracted : List Record) (label : Nat → List Text × Level) :
    List.Forall₂ (fun own r => own ∈ extracted.mapIdx (fun i r => r.labelled (label i)) ∧
      own.unlabelled = r.unlabelled)
      (extracted.mapIdx fun i r => r.labelled (label i)) extracted := by
  refine List.forall₂_iff_get.mpr ⟨List.length_mapIdx, fun i hi hi' => ⟨List.get_mem _ _, ?_⟩⟩
  rw [List.get_eq_getElem, List.get_eq_getElem, List.getElem_mapIdx]
  rfl

/-- An extraction against itself with labels: nothing is to be classified again, and each record is
kept with the labels of the last one with its content. So all labels are kept exactly if records of
equal content have equal ones. -/
theorem separate_labelled (extracted : List Record) (label : Nat → List Text × Level) :
    let classified := extracted.mapIdx fun i r => r.labelled (label i)
    (separate classified extracted).toReclassify = [] ∧
      List.Forall₂ (KeptFor classified) classified (separate classified extracted).preserved ∧
      ((separate classified extracted).preserved = classified ↔ LabelsAgree classified) := by
  intro classified
  have hown := forall₂_mapIdx_labelled extracted label
  have hkept := forall₂_keptFor hown
  exact ⟨toReclassify_eq_nil hown, hkept, eq_of_keptFor_iff hkept⟩

/-- The same comment stands twice in the file. -/
def twice : Source where
  path := "a.py"
  label := "python"
  text := "# TODO\nx\n# TODO"

def todo (row : Int) : Record :=
  ⟨0, "python", "TODO", [], [], .inline, [], (row, row), (2, 6), []⟩

def todoLabels : Nat → List Text × Level
  | 0 => (["first"], .class)
  | _ => (["second"], .method)

set_option maxRecDepth 10000 in
/-- The first of two equal comments loses its labels to the second. -/
theorem twice_relabelled :
    twice.recordsByTokens = .ok [todo 0, todo 2] ∧
    (separate ([todo 0, todo 2].mapIdx fun i r => r.labelled (todoLabels i))
      [todo 0, todo 2]).preserved =
        [(todo 0).labelled (["second"], .method), (todo 2).labelled (["second"], .method)] ∧
    (separate ([todo 0, todo 2].mapIdx fun i r => r.labelled (todoLabels i))
      [todo 0, todo 2]).preserved ≠
        [todo 0, todo 2].mapIdx fun i r => r.labelled (todoLabels i) := by
  refine ⟨rfl, by decide, by decide⟩

end Reconciliation

end Marginalia
