import Marginalia.Proofs.Outcomes
import Marginalia.Proofs.Reconciliation

/-!
The labels that reconciliation hands on: for each content those of the last record that had it. What
is kept of a content goes on to have them, however often the file is extracted again.
-/

namespace Marginalia

/-- What a classifier or an edit gives a record. -/
def Record.label (r : Record) : List Text × Level := (r.tags, r.level)

namespace Reconciliation

variable {old previous fresh : List Record} {content : Text}

/-- The labels of the last of the records with that content. -/
def labels? (previous : List Record) (content : Text) : Option (List Text × Level) :=
  (known? previous content).map Record.label

/-- Only labels matter of what was known. -/
theorem preserved_eq (old fresh : List Record) : (separate old fresh).preserved =
    fresh.filterMap fun r => (labels? old r.content).map r.labelled := by
  apply List.filterMap_congr
  intro r _
  rw [labels?, Option.map_map]
  rfl

theorem mem_preserved_iff {r : Record} : r ∈ (separate old fresh).preserved ↔
    ∃ own ∈ fresh, ∃ label, labels? old own.content = some label ∧ own.labelled label = r := by
  simp only [preserved_eq, List.mem_filterMap, Option.map_eq_some_iff]

theorem labels?_map_withId (rs : List Record) (id : Int) (content : Text) :
    labels? (rs.map fun r => r.withId id) content = labels? rs content := by
  rw [labels?, labels?, known?, known?, ← List.map_reverse, List.find?_map, Option.map_map]
  rfl

theorem labels?_of_sameButIds (h : Record.SameButIds previous old) (content : Text) :
    labels? previous content = labels? old content := by
  rw [← labels?_map_withId previous 0, h, labels?_map_withId]

theorem exists_labels?_iff :
    (∃ label, labels? old content = some label) ↔ content ∈ old.map Record.content := by
  rw [← Option.isSome_iff_exists, labels?, Option.isSome_map, isSome_known?, decide_eq_true_eq]

theorem exists_of_labels? {label : List Text × Level} (h : labels? old content = some label) :
    ∃ r ∈ old, r.content = content ∧ r.label = label := by
  obtain ⟨k, hk, rfl⟩ := Option.map_eq_some_iff.mp h
  have hlast := known?_eq_some_iff.mp hk
  obtain ⟨-, -, -, hcontent, -⟩ := id hlast
  exact ⟨k, mem_of_isLastWith hlast, hcontent, rfl⟩

/-- What is kept of a known content has the labels that were known of it. -/
theorem labels?_preserved {label : List Text × Level} (hfresh : content ∈ fresh.map Record.content)
    (h : labels? old content = some label) :
    labels? (separate old fresh).preserved content = some label := by
  obtain ⟨own, hown, rfl⟩ := List.mem_map.mp hfresh
  have hkept : own.labelled label ∈ (separate old fresh).preserved :=
    mem_preserved_iff.mpr ⟨own, hown, label, h, rfl⟩
  obtain ⟨label', hlabel'⟩ := exists_labels?_iff.mpr (List.mem_map_of_mem hkept)
  obtain ⟨r, hr, hcontent, rfl⟩ := exists_of_labels? hlabel'
  obtain ⟨own', -, label'', hlabel'', rfl⟩ := mem_preserved_iff.mp hr
  have hsame : own'.content = own.content := hcontent
  rw [hsame, h] at hlabel''
  cases hlabel''
  exact hlabel'

/-- A second reconciliation with what the first one has kept of an extraction that was known. -/
theorem preserved_preserved (hknown : ∀ r ∈ fresh, r.content ∈ old.map Record.content)
    (hprevious : Record.SameButIds previous (separate old fresh).preserved) :
    (separate previous fresh).preserved = (separate old fresh).preserved := by
  rw [preserved_eq, preserved_eq]
  apply List.filterMap_congr
  intro r hr
  obtain ⟨label, hlabel⟩ := exists_labels?_iff.mpr (hknown r hr)
  rw [labels?_of_sameButIds hprevious, labels?_preserved (List.mem_map_of_mem hr) hlabel, hlabel]

end Reconciliation

end Marginalia
