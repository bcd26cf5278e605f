import Marginalia.Proofs.Enrichment

/-!
Enrichment by what comes of its lookups. Nothing is looked up or changed but the records without a
date, and the same outcomes change nothing more in a second pass.
-/

namespace Marginalia

/-! ## Outcomes -/

namespace DateLookup

variable {l : DateLookup} {date : Text}

/-- The lookup gives a date or none, or fails as lookups do. -/
def Settles : DateLookup → Prop
  | answered _ | timedOut => True
  | failed cause => cause.isA .commitLookupFailure = true

theorem Settles.exists_date (h : l.Settles) : ∃ date, l.date = .ok date := by
  cases l with
  | answered date => exact ⟨_, rfl⟩
  | timedOut => exact ⟨_, rfl⟩
  | failed cause => exact ⟨[], if_pos h⟩

/-- Only a lookup that is answered with a date gives one. -/
theorem eq_nil_of_date (h : l.date = .ok date) (hnone : ∀ own, l ≠ .answered (some own)) :
    date = [] := by
  cases l with
  | answered found =>
      cases found with
      | none => exact (Except.ok.inj h).symm
      | some own => exact absurd rfl (hnone own)
  | timedOut => exact (Except.ok.inj h).symm
  | failed cause =>
      simp only [DateLookup.date] at h
      split at h
      · exact (Except.ok.inj h).symm
      · cases h

end DateLookup

/-! ## Records -/

/-- A record as it was but for its date. If it had none, it has the one that the lookup gives, or an
empty one where that gives none. -/
structure Record.FilledBy (lookup : DateLookup) (r r' : Record) : Prop where
  frame : r' = r.withCommitDate r'.commitDate
  kept : r.commitDate ≠ [] → r' = r
  found : ∀ date, r.commitDate = [] → lookup = .answered (some date) → r'.commitDate = date
  emptied : r.commitDate = [] → (∀ date, lookup ≠ .answered (some date)) → r'.commitDate = []

namespace Batch

variable {b b' : Batch} {dates dates' : Dates} {path : Text} {line : Int} {r : Record}

theorem dated_of_ne_nil (h : r.commitDate ≠ []) : dated dates path r = r :=
  if_neg fun hempty => h (List.isEmpty_iff.mp hempty)

theorem dated_of_nil (h : r.commitDate = []) : dated dates path r =
    match (dates path r.firstLine).date with
    | .ok date => r.withCommitDate date
    | .error _ => r :=
  if_pos (List.isEmpty_iff.mpr h)

theorem withCommitDate_self (h : r.commitDate = []) : r.withCommitDate [] = r := by
  rw [← h]
  rfl

theorem dated_filledBy (h : r.commitDate = [] → (dates path r.firstLine).Settles) :
    r.FilledBy (dates path r.firstLine) (dated dates path r) := by
  by_cases hnil : r.commitDate = []
  · obtain ⟨date, hdate⟩ := (h hnil).exists_date
    rw [dated_of_nil hnil, hdate]
    refine ⟨rfl, fun hne => absurd hnil hne, fun own _ hown => ?_, fun _ => ?_⟩
    · rw [hown] at hdate
      exact (Except.ok.inj hdate).symm
    · exact DateLookup.eq_nil_of_date hdate
  · rw [dated_of_ne_nil hnil]
    exact ⟨rfl, fun _ => rfl, fun _ hnil' => absurd hnil' hnil, fun hnil' => absurd hnil' hnil⟩

/-- A record that has been looked up has its date, or gets an empty one again. -/
theorem dated_dated (dates : Dates) (path : Text) (r : Record) :
    dated dates path (dated dates path r) = dated dates path r := by
  by_cases hnil : r.commitDate = []
  · have hself : dated dates path r = _ := dated_of_nil hnil
    cases hdate : (dates path r.firstLine).date with
    | error f =>
        simp only [hdate] at hself
        rw [hself, hself]
    | ok date =>
        simp only [hdate] at hself
        by_cases hempty : date = []
        · rw [hempty, withCommitDate_self hnil] at hself
          rw [hself, hself]
        · rw [hself]
          exact dated_of_ne_nil hempty
  · rw [dated_of_ne_nil hnil, dated_of_ne_nil hnil]

theorem commitDate_of_dated (h : (dated dates path r).commitDate = []) : r.commitDate = [] := by
  by_contra hne
  rw [dated_of_ne_nil hne] at h
  exact hne h

theorem firstLine_dated : (dated dates path r).firstLine = r.firstLine := by
  rcases dated_eq_or dates path r with hself | ⟨date, hdated⟩
  · rw [hself]
  · rw [hdated]
    rfl

/-! ## Batches -/

/-- The same files with the same records, of which those without a date have the one that is looked
up for them. -/
def FilledBy (dates : Dates) (b b' : Batch) : Prop :=
  List.Forall₂ (fun f f' => f'.1 = f.1 ∧
    List.Forall₂ (fun r r' => r.FilledBy (dates f.1 r.firstLine) r') f.2 f'.2) b.files b'.files

/-- After a pass there is nothing to look up that was not looked up in it. -/
theorem lookups_subset (h : (b.enrich dates).2 = .ok b') : b'.lookups ⊆ b.lookups := by
  rintro ⟨path, line⟩ hl
  obtain ⟨rs', hf', r', hr', hempty, hline⟩ := mem_lookups_iff.mp hl
  rw [eq_of_enrich h] at hf'
  obtain ⟨⟨own, rs⟩, hf, heq⟩ := List.mem_map.mp hf'
  cases heq
  obtain ⟨r, hr, rfl⟩ := List.mem_map.mp hr'
  have hnil := commitDate_of_dated (List.isEmpty_iff.mp hempty)
  rw [firstLine_dated] at hline
  exact mem_lookups_iff.mpr ⟨rs, hf, r, hr, List.isEmpty_iff.mpr hnil, hline⟩

theorem enrich_enrich (h : (b.enrich dates).2 = .ok b') : (b'.enrich dates).2 = .ok b' := by
  obtain ⟨b'', hagain⟩ := exists_enrich_iff.mpr fun path line hl =>
    exists_enrich_iff.mp ⟨b', h⟩ path line (lookups_subset h hl)
  have hsame : b'' = b' := by
    apply ext_files
    rw [eq_of_enrich hagain, eq_of_enrich h]
    refine (List.map_map ..).trans (List.map_congr_left fun f _ => congrArg (f.1, ·) ?_)
    exact (List.map_map ..).trans (List.map_congr_left fun r _ => dated_dated dates f.1 r)
  rw [hagain, hsame]

/-- Enrichment depends on nothing but the lookups that it makes. -/
theorem enrich_congr
    (h : ∀ path line, (path, line) ∈ b.lookups → dates' path line = dates path line) :
    b.enrich dates' = b.enrich dates := by
  have hnotes : lookupNotes dates' b = lookupNotes dates b :=
    List.filterMap_congr fun ⟨path, line⟩ hl => by simp only [h path line hl]
  have hfailure : lookupFailure? dates' b = lookupFailure? dates b := by
    rw [lookupFailure?, lookupFailure?, ← List.head?_filterMap, ← List.head?_filterMap]
    exact congrArg List.head? (List.filterMap_congr fun ⟨path, line⟩ hl => by
      simp only [h path line hl])
  have hfiles : (b.mapFiles fun path rs => rs.map (dated dates' path)) =
      b.mapFiles fun path rs => rs.map (dated dates path) := by
    apply ext_files
    refine List.map_congr_left fun f hf => congrArg (f.1, ·) (List.map_congr_left fun r hr => ?_)
    by_cases hnil : r.commitDate = []
    · rw [dated_of_nil hnil, dated_of_nil hnil, h]
      exact mem_lookups_iff.mpr ⟨f.2, hf, r, hr, List.isEmpty_iff.mpr hnil, rfl⟩
    · rw [dated_of_ne_nil hnil, dated_of_ne_nil hnil]
  rw [enrich, enrich, hnotes, hfailure, hfiles]

end Batch

/-- The work of filling in dates keeps a list of what it looks up. -/
theorem Run.exists_enrich (dates : Dates) (b : Batch) (s : Session) :
    ∃ s', Run.enrich dates b s = ((b.enrich dates).2, s') ∧
      s'.lookups = s.lookups ++ b.lookups := by
  have hmodify :
      (modify fun (s : Session) => { s with lookups := s.lookups ++ b.lookups } : Run Unit)
      s = (.ok (), { s with lookups := s.lookups ++ b.lookups }) := rfl
  rw [enrich, bind_of_ok hmodify, noted]
  cases (b.enrich dates).2 with
  | ok b' => exact ⟨_, rfl, rfl⟩
  | error f => exact ⟨_, rfl, rfl⟩

namespace Batch

/-- Enrichment by lookups that give a date or none, or fail as lookups do. It keeps all files and
records, gives those without a date the one that is looked up, and leaves all else alone; a second
pass with the same outcomes changes nothing. Only the first lines of records without a date are
looked up, and no other line has a part in the outcome. -/
theorem enrich_fills {b : Batch} {dates : Dates}
    (h : ∀ path line, (path, line) ∈ b.lookups → (dates path line).Settles) :
    ∃ b', (b.enrich dates).2 = .ok b' ∧ b.FilledBy dates b' ∧ (b'.enrich dates).2 = .ok b' ∧
      (∀ path line, (path, line) ∈ b.lookups ↔
        ∃ rs, (path, rs) ∈ b.files ∧ ∃ r ∈ rs, r.commitDate = [] ∧ r.rows.1 + 1 = line) ∧
      (∀ s, ∃ s', Run.enrich dates b s = (.ok b', s') ∧ s'.lookups = s.lookups ++ b.lookups) ∧
      ∀ dates' : Dates,
        (∀ path line, (path, line) ∈ b.lookups → dates' path line = dates path line) →
        b.enrich dates' = b.enrich dates := by
  obtain ⟨b', hb'⟩ := exists_enrich_iff.mpr fun path line hl => (h path line hl).exists_date
  have hfilled : b.FilledBy dates b' := by
    refine forall₂_of_enrich hb' fun path rs hf r hr => dated_filledBy fun hnil => ?_
    exact h _ _ (mem_lookups_iff.mpr ⟨rs, hf, r, hr, List.isEmpty_iff.mpr hnil, rfl⟩)
  refine ⟨b', hb', hfilled, enrich_enrich hb', fun path line => ?_, fun s => ?_,
    fun dates' => enrich_congr⟩
  · simp only [mem_lookups_iff, List.isEmpty_iff]
    rfl
  · rw [← hb']
    exact Run.exists_enrich dates b s

/-- A dated record, and three without a date in two files. -/
def agedBatch : Batch :=
  ⟨[("/a", [⟨0, "java", "a", [], [], .inline, [], (0, 0), (3, 4), "1999"⟩,
      ⟨1, "java", "b", [], [], .inline, [], (1, 1), (3, 4), []⟩]),
    ("/b", [⟨2, "java", "c", [], [], .inline, [], (0, 0), (3, 4), []⟩,
      ⟨3, "java", "d", [], [], .inline, [], (4, 6), (3, 4), []⟩])], by decide⟩

/-- Every second line of the first file has a date, and the other file is not answered for. -/
def agedDates : Dates := fun path line =>
  if path = "/a".toList then .answered (if line % 2 = 0 then some "2001".toList else none)
  else if line = 1 then .failed (.blameTimedOut path line) else .timedOut

theorem enrich_fills_aged :
    (∀ path line, (path, line) ∈ agedBatch.lookups → (agedDates path line).Settles) ∧
    ∃ b', (agedBatch.enrich agedDates).2 = .ok b' ∧ agedBatch.FilledBy agedDates b' ∧
      (b'.enrich agedDates).2 = .ok b' ∧
      b'.records.map Record.commitDate = ["1999", "2001", "", ""] := by
  have hsettles : ∀ path line, (path, line) ∈ agedBatch.lookups →
      (agedDates path line).Settles := by
    intro path line hl
    have hall : agedBatch.lookups = [("/a".toList, 2), ("/b".toList, 1), ("/b".toList, 5)] := rfl
    rw [hall] at hl
    simp only [List.mem_cons, List.not_mem_nil, or_false, Prod.mk.injEq] at hl
    rcases hl with ⟨rfl, rfl⟩ | ⟨rfl, rfl⟩ | ⟨rfl, rfl⟩
    · exact trivial
    · exact rfl
    · exact trivial
  obtain ⟨b', hb', hfilled, hagain, -⟩ := enrich_fills hsettles
  refine ⟨hsettles, b', hb', hfilled, hagain, ?_⟩
  cases hb'
  decide

end Batch

end Marginalia
