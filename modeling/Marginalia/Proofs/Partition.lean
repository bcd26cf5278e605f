import Marginalia.Proofs.Labels

/-!
Reconciliation as a partition: every current record is kept or is to be classified again, as its
content was known or not. Of what was known only the last labels of each content matter, and the
order of the records does not if no two of them have one content.
-/

namespace Marginalia

/-- The last of the records with that content has these labels. -/
def Record.LastLabel (rs : List Record) (content : Text) (label : List Text × Level) : Prop :=
  ∃ r, Record.IsLastWith content rs r ∧ r.label = label

namespace Reconciliation

variable {previous previous' current : List Record} {content : Text} {label : List Text × Level}

theorem labels?_eq_some_iff :
    labels? previous content = some label ↔ Record.LastLabel previous content label := by
  rw [labels?, Option.map_eq_some_iff]
  simp only [known?_eq_some_iff]
  rfl

/-! ## Record by record -/

theorem separate_cons_of_known (r : Record) (h : Record.LastLabel previous r.content label) :
    separate previous (r :: current) =
      { separate previous current with
        preserved := r.labelled label :: (separate previous current).preserved } := by
  obtain ⟨last, hlast, rfl⟩ := h
  have hknown := known?_eq_some_iff.mpr hlast
  simp only [separate, List.filterMap_cons, List.filter_cons, hknown]
  rfl

theorem separate_cons_of_new (r : Record) (h : r.content ∉ previous.map Record.content) :
    separate previous (r :: current) =
      { separate previous current with
        toReclassify := r.withTags [] :: (separate previous current).toReclassify } := by
  have hnew : known? previous r.content = none := by
    rw [← Option.not_isSome_iff_eq_none, isSome_known?]
    simpa using h
  simp only [separate, List.filterMap_cons, List.filter_cons, hnew]
  rfl

/-- What is kept is kept of the current records with a known content, one by one. -/
theorem forall₂_seenIn (previous current : List Record) :
    List.Forall₂ (KeptFor previous) (seenIn previous current)
      (separate previous current).preserved := by
  induction current with
  | nil => exact .nil
  | cons r current ih =>
      rw [seenIn, List.filter_cons]
      by_cases hknown : r.content ∈ previous.map Record.content
      · obtain ⟨own, hown, hcontent⟩ := List.mem_map.mp hknown
        obtain ⟨last, hlast⟩ := exists_isLastWith hown
        rw [hcontent] at hlast
        rw [if_pos (decide_eq_true hknown), separate_cons_of_known r ⟨last, hlast, rfl⟩]
        exact .cons ⟨rfl, last, hlast, rfl, rfl⟩ ih
      · rw [if_neg (by simpa using hknown), separate_cons_of_new r hknown]
        exact ih

/-! ## What matters of the previous records -/

theorem separate_congr (h : ∀ content, labels? previous content = labels? previous' content)
    (current : List Record) : separate previous current = separate previous' current := by
  have hknown : ∀ r ∈ current,
      (known? previous r.content).isNone = (known? previous' r.content).isNone := by
    intro r _
    have hlabels := congrArg Option.isNone (h r.content)
    rwa [labels?, labels?, Option.isNone_map, Option.isNone_map] at hlabels
  have hpreserved : (separate previous current).preserved =
      (separate previous' current).preserved := by
    simp only [preserved_eq, h]
  have hnew : (separate previous current).toReclassify =
      (separate previous' current).toReclassify := by
    rw [separate, separate, List.filter_congr hknown]
  exact congrArg₂ Reconciliation.mk hpreserved hnew

/-- One record of a content tells the labels that are known of it. -/
theorem labels?_eq_of_separate
    (h : ∀ current, separate previous current = separate previous' current) (content : Text) :
    labels? previous content = labels? previous' content := by
  obtain ⟨own, rfl⟩ : ∃ own : Record, own.content = content :=
    ⟨{ (default : Record) with content }, rfl⟩
  have hown (rs : List Record) :
      (separate rs [own]).preserved.head? = (labels? rs own.content).map own.labelled := by
    rw [preserved_eq]
    cases hlabels : labels? rs own.content with
    | none => rw [List.filterMap_cons_none (by rw [hlabels]; rfl)]; rfl
    | some label => rw [List.filterMap_cons_some (by rw [hlabels]; rfl)]; rfl
  have hinj : Function.Injective own.labelled := fun label label' hlabel =>
    Prod.ext (congrArg Record.tags hlabel) (congrArg Record.level hlabel)
  apply Option.map_injective hinj
  rw [← hown, ← hown, h]

theorem separate_eq_iff : (∀ current, separate previous current = separate previous' current) ↔
    ∀ content label,
      Record.LastLabel previous content label ↔ Record.LastLabel previous' content label := by
  simp only [← labels?_eq_some_iff]
  constructor
  · intro h content label
    rw [labels?_eq_of_separate h]
  · exact fun h => separate_congr fun content => Option.ext (h content)

theorem isLastWith_iff_mem {r : Record} (h : (previous.map Record.content).Nodup) :
    Record.IsLastWith content previous r ↔ r ∈ previous ∧ r.content = content := by
  constructor
  · intro hlast
    obtain ⟨-, -, -, hcontent, -⟩ := id hlast
    exact ⟨mem_of_isLastWith hlast, hcontent⟩
  · rintro ⟨hr, rfl⟩
    obtain ⟨front, back, rfl⟩ := List.append_of_mem hr
    rw [List.map_append, List.map_cons, List.nodup_append, List.nodup_cons] at h
    obtain ⟨-, ⟨hback, -⟩, -⟩ := h
    exact ⟨front, back, rfl, rfl, fun later hlater heq => hback (heq ▸ List.mem_map_of_mem hlater)⟩

theorem lastLabel_perm (hperm : previous'.Perm previous)
    (h : (previous.map Record.content).Nodup) :
    Record.LastLabel previous' content label ↔ Record.LastLabel previous content label := by
  have h' : (previous'.map Record.content).Nodup := (hperm.map Record.content).nodup_iff.mpr h
  simp only [Record.LastLabel, isLastWith_iff_mem h, isLastWith_iff_mem h', hperm.mem_iff]

/-! ## The partition -/

/-- The current records whose content is known are kept in their order, each as it is but for the
labels of the last previous record with its content; the others are to be classified again in
theirs, each as it is but for its tags. Two lists of previous records give the same for all current
ones exactly if the last labels of each content are the same, and so do all orders of records with
different contents. -/
theorem separate_partitions (previous current : List Record) :
    List.Forall₂ (KeptFor previous) (seenIn previous current)
        (separate previous current).preserved ∧
      (separate previous current).toReclassify =
        (newTo previous current).map (fun r => r.withTags []) ∧
      (seenIn previous current ++ newTo previous current).Perm current ∧
      (∀ previous', (∀ current, separate previous current = separate previous' current) ↔
        ∀ content label,
          Record.LastLabel previous content label ↔ Record.LastLabel previous' content label) ∧
      ∀ previous', previous'.Perm previous → (previous.map Record.content).Nodup →
        separate previous' current = separate previous current := by
  refine ⟨forall₂_seenIn previous current, toReclassify_separate previous current,
    seenIn_append_newTo_perm previous current, fun previous' => separate_eq_iff, ?_⟩
  intro previous' hperm hcontents
  exact separate_eq_iff.mpr (fun content label => lastLabel_perm hperm hcontents) current

/-- Two records known, in either order: one comment is there twice, and one is new. -/
theorem separate_partitions_swapped :
    ([todo 2, { todo 0 with content := "b" }].Perm [{ todo 0 with content := "b" }, todo 2] ∧
      ([{ todo 0 with content := "b" }, todo 2].map Record.content).Nodup) ∧
    separate [todo 2, { todo 0 with content := "b" }]
        [todo 5, { todo 6 with content := "new" }, todo 7] =
      separate [{ todo 0 with content := "b" }, todo 2]
        [todo 5, { todo 6 with content := "new" }, todo 7] := by
  have hperm := List.Perm.swap { todo 0 with content := "b" } (todo 2) []
  exact ⟨⟨hperm, by decide⟩, (separate_partitions _ _).2.2.2.2 _ hperm (by decide)⟩

end Reconciliation

end Marginalia
