import Mathlib.Data.List.Forall2
import Marginalia.Proofs.Calendar
import Marginalia.Proofs.Runs

/-!
Enrichment with the dates of the version history. Where the history does not answer, a record stays
without a date. A time past the year 9999 is no failure to look up, and ends the enrichment.
-/

namespace Marginalia

/-! ## Answers of the history -/

namespace Blame

/-- The seconds that the output tells, if the command exited well and the line is committed. -/
def Outcome.told? : Outcome → Option Nat
  | answered exitCode output =>
    if exitCode ≠ 0 || uncommitted.isPrefixOf output then none else time? output
  | timedOut | notRun _ => none

variable {tree : FileTree} {base : Path} {history : Text → Int → Option Outcome} {path : Text}
  {line : Int} {seconds : Nat}

/-- The seconds that the history tells of a line, if it answers in time. -/
def told? (history : Text → Int → Option Outcome) (path : Text) (line : Int) : Option Nat :=
  (history path line).bind Outcome.told?

theorem writtenTime_of_le (h : seconds ≤ Moment.lastWritten) :
    writtenTime seconds = .ok (Moment.mk seconds).toText := by
  have hcounted : Moment.lastWritten ≤ Moment.lastCounted := by decide
  rw [writtenTime, if_neg (by omega), if_neg (by omega)]

theorem exists_writtenTime (h : Moment.lastWritten < seconds) :
    ∃ f : Failure, writtenTime seconds = .error f ∧ f.isA .commitLookupFailure = false := by
  rw [writtenTime, if_pos h]
  split
  · exact ⟨_, rfl, rfl⟩
  · exact ⟨_, rfl, rfl⟩

/-- A record gets the time that the history tells, or else an empty date. -/
theorem dates_date : (dates tree base history path line).date =
    match told? history path line with
    | some seconds => writtenTime seconds
    | none => .ok [] := by
  unfold dates told?
  cases history path line with
  | none => rfl
  | some outcome =>
      cases outcome with
      | timedOut => rfl
      | notRun cause => rfl
      | answered exitCode output =>
          simp only [Option.bind_some, Outcome.told?, date, outputDate]
          split
          · rfl
          · cases time? output with
            | none => rfl
            | some seconds =>
                rcases Nat.lt_or_ge Moment.lastWritten seconds with hlong | hshort
                · obtain ⟨f, hf, hkind⟩ := exists_writtenTime hlong
                  simp [hf, DateLookup.ofExcept, DateLookup.date, hkind]
                · simp [writtenTime_of_le hshort, DateLookup.ofExcept, DateLookup.date]

end Blame

/-! ## Records -/

namespace Batch

variable {b b' : Batch} {dates : Dates} {path : Text} {line : Int} {tree : FileTree} {base : Path}
  {history : Text → Int → Option Blame.Outcome}

theorem mem_lookups_iff : (path, line) ∈ b.lookups ↔
    ∃ rs, (path, rs) ∈ b.files ∧ ∃ r ∈ rs, r.commitDate.isEmpty = true ∧ r.firstLine = line := by
  simp only [lookups, List.mem_flatMap, List.mem_map, List.mem_filter]
  constructor
  · rintro ⟨⟨own, rs⟩, hf, r, ⟨hr, hdate⟩, ⟨⟩⟩
    exact ⟨rs, hf, r, hr, hdate, rfl⟩
  · rintro ⟨rs, hf, r, hr, hdate, rfl⟩
    exact ⟨(path, rs), hf, r, ⟨hr, hdate⟩, rfl⟩

/-- Enrichment succeeds just where each of its lookups gives a date. -/
theorem exists_enrich_iff : (∃ b', (b.enrich dates).2 = .ok b') ↔
    ∀ path line, (path, line) ∈ b.lookups → ∃ date, (dates path line).date = .ok date := by
  have hnone : (∃ b', (b.enrich dates).2 = .ok b') ↔ lookupFailure? dates b = none := by
    unfold enrich
    cases lookupFailure? dates b <;> simp
  rw [hnone, lookupFailure?, List.findSome?_eq_none_iff]
  constructor
  · intro h path line hl
    have hself := h (path, line) hl
    dsimp only at hself
    cases hdate : (dates path line).date with
    | ok date => exact ⟨date, rfl⟩
    | error f =>
        rw [hdate] at hself
        cases hself
  · rintro h ⟨path, line⟩ hl
    obtain ⟨date, hdate⟩ := h path line hl
    simp only [hdate]

/-- A failed enrichment has the failure of one of its lookups. -/
theorem exists_of_enrich_error {f : Failure} (h : (b.enrich dates).2 = .error f) :
    ∃ path line, (path, line) ∈ b.lookups ∧ (dates path line).date = .error f := by
  unfold enrich at h
  cases hfailure : lookupFailure? dates b with
  | none =>
      rw [hfailure] at h
      cases h
  | some own =>
      rw [hfailure] at h
      cases h
      obtain ⟨⟨path, line⟩, hl, hself⟩ := List.exists_of_findSome?_eq_some hfailure
      refine ⟨path, line, hl, ?_⟩
      dsimp only at hself
      split at hself
      · cases hself
      · rename_i hdate
        cases hself
        exact hdate

/-- Enrichment keeps the files and the records in their order. -/
theorem forall₂_of_enrich {R : Text → Record → Record → Prop} (h : (b.enrich dates).2 = .ok b')
    (hR : ∀ path rs, (path, rs) ∈ b.files → ∀ r ∈ rs, R path r (dated dates path r)) :
    List.Forall₂ (fun f f' => f'.1 = f.1 ∧ List.Forall₂ (R f.1) f.2 f'.2) b.files b'.files := by
  rw [eq_of_enrich h, mapFiles, List.forall₂_map_right_iff, List.forall₂_same]
  rintro ⟨path, rs⟩ hf
  exact ⟨rfl, List.forall₂_map_right_iff.mpr (List.forall₂_same.mpr (hR path rs hf))⟩

end Batch

end Marginalia
