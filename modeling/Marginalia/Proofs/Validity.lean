import Marginalia.Extraction.Files
import Marginalia.Proofs.Batches
import Marginalia.Proofs.Records

/-!
Where valid records come from. Whatever is read back from a stored form is valid, and so is every
record that is extracted, by the syntax tree or without it.
-/

namespace Marginalia

/-! ## Reading -/

namespace Validated

variable {α β : Type}

theorem map_eq_valid {f : α → β} {v : Validated α} {y : β} :
    f <$> v = .valid y ↔ ∃ x, v = .valid x ∧ f x = y := by
  change v.map f = .valid y ↔ _
  cases v with
  | valid x => simp only [map, valid.injEq, exists_eq_left']
  | invalid issues => simp only [map, reduceCtorEq, false_and, exists_false]

theorem seq_eq_valid {f : Validated (α → β)} {v : Validated α} {y : β} :
    f <*> v = .valid y ↔ ∃ g x, f = .valid g ∧ v = .valid x ∧ g x = y := by
  change f.both v = .valid y ↔ _
  cases f <;> cases v <;> simp [both]

theorem andThen_eq_valid {v : Validated α} {f : α → Validated β} {y : β} :
    v.andThen f = .valid y ↔ ∃ x, v = .valid x ∧ f x = .valid y := by
  cases v <;> simp [andThen]

theorem orFail_eq_ok {v : Validated α} {failure : List Issue → Failure} {x : α} :
    v.orFail failure = .ok x ↔ v = .valid x := by
  cases v <;> simp [orFail]

theorem within_eq_valid {v : Validated α} {place : Place} {x : α} :
    v.within place = .valid x ↔ v = .valid x := by
  cases v <;> simp [within]

theorem forall₂_of_itemsFrom {read : Json → Validated α} {vs : List Json} {xs : List α}
    {start : Nat} (h : itemsFrom read start vs = .valid xs) :
    List.Forall₂ (fun v x => read v = .valid x) vs xs := by
  induction vs generalizing start xs with
  | nil =>
      cases h
      exact .nil
  | cons v vs ih =>
      obtain ⟨cons, tail, hcons, htail, rfl⟩ := seq_eq_valid.mp h
      obtain ⟨x, hx, rfl⟩ := map_eq_valid.mp hcons
      exact .cons (within_eq_valid.mp hx) (ih htail)

end Validated

/-- A field that could be read was read from some value, or else stood in for. -/
theorem Json.exists_of_fieldAs {α : Type} {fields : List (Text × Json)} {names : List Text}
    {absent : Validated α} {read : Json → Validated α} {x : α}
    (h : fieldAs fields names absent read = .valid x) :
    (∃ v, read v = .valid x) ∨ absent = .valid x := by
  unfold fieldAs at h
  split at h
  · rename_i v _
    exact .inl ⟨v, Validated.within_eq_valid.mp h⟩
  · exact .inr (Validated.within_eq_valid.mp h)

/-- What could be read from some bytes was read from some value. -/
theorem Bytes.exists_of_readJson {α : Type} {read : Json → Validated α} {bytes : Bytes} {x : α}
    (h : bytes.readJson read = .valid x) : ∃ v, read v = .valid x := by
  unfold readJson at h
  split at h
  · rename_i v _
    exact ⟨v, h⟩
  · cases h

namespace Record

theorem trimmed_of_readContent {v : Json} {t : Text} (h : readContent v = .valid t) :
    t.trim = t ∧ t ≠ [] := by
  obtain ⟨given, -, h⟩ := Validated.andThen_eq_valid.mp h
  split at h
  · cases h
  · rename_i hne
    cases h
    exact ⟨given.trim_trim, fun hnil => hne (List.isEmpty_iff.mpr hnil)⟩

theorem tags_ne_nil_of_readTags {v : Json} {tags : List Text} (h : readTags v = .valid tags) :
    ∀ tag ∈ tags, tag ≠ [] := by
  obtain ⟨vs, -, h⟩ := Validated.andThen_eq_valid.mp h
  intro tag htag hnil
  obtain ⟨item, hitem, hread⟩ := Sequence.of_mem_right (Validated.forall₂_of_itemsFrom h) htag
  -- An item that is read as the empty text would have been dropped before.
  have hkept := (List.mem_filter.mp hitem).2
  cases item with
  | string t =>
      cases hread
      rw [hnil] at hkept
      cases hkept
  | _ => cases hread

theorem checkRows_eq_valid {r r' : Record} :
    checkRows r = .valid r' ↔ 0 ≤ r.rows.1 ∧ r.rows.1 ≤ r.rows.2 ∧ r = r' := by
  simp only [checkRows]
  split
  · rename_i hrows
    simp only [Bool.or_eq_true, decide_eq_true_eq] at hrows
    constructor
    · intro h
      cases h
    · rintro ⟨hnonneg, hle, -⟩
      rcases hrows with hneg | hlt
      · exact absurd hnonneg (Int.not_le.mpr hneg)
      · exact absurd hle (Int.not_le.mpr hlt)
  · rename_i hrows
    simp only [Bool.or_eq_true, decide_eq_true_eq, not_or, Int.not_lt] at hrows
    rw [Validated.valid.injEq]
    exact ⟨fun h => ⟨hrows.1, hrows.2, h⟩, fun h => h.2.2⟩

/-- A record that is read meets what is asked of a record. -/
theorem wellFormed_of_ofJson {v : Json} {r : Record} (h : ofJson v = .valid r) : r.WellFormed := by
  cases v with
  | object fields =>
      obtain ⟨read, hread, hcheck⟩ := Validated.andThen_eq_valid.mp h
      obtain ⟨hnonneg, hle, rfl⟩ := checkRows_eq_valid.mp hcheck
      -- The fields from the last one back to the content.
      unfold readFields at hread
      obtain ⟨_, _, hread₉, -, rfl⟩ := Validated.seq_eq_valid.mp hread
      obtain ⟨_, _, hread₈, -, rfl⟩ := Validated.seq_eq_valid.mp hread₉
      obtain ⟨_, _, hread₇, -, rfl⟩ := Validated.seq_eq_valid.mp hread₈
      obtain ⟨_, tags, hread₆, htags, rfl⟩ := Validated.seq_eq_valid.mp hread₇
      obtain ⟨_, _, hread₅, -, rfl⟩ := Validated.seq_eq_valid.mp hread₆
      obtain ⟨_, _, hread₄, -, rfl⟩ := Validated.seq_eq_valid.mp hread₅
      obtain ⟨_, _, hread₃, -, rfl⟩ := Validated.seq_eq_valid.mp hread₄
      obtain ⟨_, content, hread₂, hcontent, rfl⟩ := Validated.seq_eq_valid.mp hread₃
      obtain ⟨_, _, hread₁, -, rfl⟩ := Validated.seq_eq_valid.mp hread₂
      obtain ⟨_, -, rfl⟩ := Validated.map_eq_valid.mp hread₁
      have htrim : content.trim = content ∧ content ≠ [] := by
        rcases Json.exists_of_fieldAs hcontent with ⟨v, hv⟩ | habsent
        · exact trimmed_of_readContent hv
        · cases habsent
      have hkept : ∀ tag ∈ tags, tag ≠ [] := by
        rcases Json.exists_of_fieldAs htags with ⟨v, hv⟩ | habsent
        · exact tags_ne_nil_of_readTags hv
        · cases habsent
          intro tag htag
          cases htag
      exact ⟨htrim.1, htrim.2, hkept, hnonneg, hle⟩
  | _ => cases h

theorem wellFormed_of_listOfJson {v : Json} {rs : List Record} (h : listOfJson v = .valid rs) :
    ∀ r ∈ rs, r.WellFormed := by
  obtain ⟨vs, -, h⟩ := Validated.andThen_eq_valid.mp h
  intro r hr
  obtain ⟨item, -, hitem⟩ := Sequence.of_mem_right (Validated.forall₂_of_itemsFrom h) hr
  exact wellFormed_of_ofJson hitem

end Record

/-! ## Batches -/

namespace Batch

theorem wellFormed_of_ofJson {v : Json} {b : Batch} (h : ofJson v = .valid b) : b.WellFormed := by
  cases v with
  | object fields =>
      obtain ⟨fs, hfs, rfl⟩ := Validated.map_eq_valid.mp h
      apply all_ofList
      clear h
      induction fields generalizing fs with
      | nil =>
          cases hfs
          intro f hf
          cases hf
      | cons field fields ih =>
          obtain ⟨path, v⟩ := field
          obtain ⟨cons, rest, hcons, hrest, rfl⟩ := Validated.seq_eq_valid.mp hfs
          obtain ⟨rs, hrs, rfl⟩ := Validated.map_eq_valid.mp hcons
          have hvalid := Record.wellFormed_of_listOfJson (Validated.within_eq_valid.mp hrs)
          exact List.forall_mem_cons.mpr ⟨hvalid, ih rest hrest⟩
  | _ => cases h

theorem wellFormed_of_ofBytes {bytes : Bytes} {b : Batch} (h : ofBytes bytes = .valid b) :
    b.WellFormed := by
  obtain ⟨v, hv⟩ := Bytes.exists_of_readJson h
  exact wellFormed_of_ofJson hv

end Batch

/-! ## Extraction -/

namespace Comment

variable {language : Option Language} {cleaned p : Text}

theorem trimmed_of_mem_paragraphs (h : p ∈ paragraphs language cleaned) : p.trim = p ∧ p ≠ [] := by
  obtain ⟨places, hplaces, hparagraphs⟩ := exists_paragraphs language cleaned
  rw [hparagraphs] at h
  obtain ⟨⟨first, last⟩, hplace, rfl⟩ := List.mem_map.mp h
  have hrun := (hplaces.mem_iff first last).mp hplace
  refine ⟨Text.trim_trim _, Text.trim_ne_nil ?_⟩
  rcases List.eq_nil_or_concat' (Sequence.between cleaned.lines (first, last)) with
    hnil | ⟨rows, row, hconcat⟩
  · exact absurd hnil (between_ne_nil hrun)
  · have hrow : row ∈ Sequence.between cleaned.lines (first, last) := by
      rw [hconcat]
      exact List.mem_concat_self
    rw [hconcat]
    exact Text.allBlank_unlines_concat
      (allBlank_of_isBoundary_eq_false (hrun.of_mem_between hrow)) rows

theorem exists_findInRow_of_nonneg {row : Int} (h : 0 ≤ row) (source : List Text) (wanted : Text) :
    ∃ column, findInRow source row wanted = some column := by
  by_cases hin : (source.length : Int) ≤ row
  · refine ⟨none, ?_⟩
    unfold findInRow
    rw [decide_eq_true hin, Bool.or_true, if_pos rfl]
  · obtain ⟨n, rfl⟩ := Int.eq_ofNat_of_zero_le h
    exact exists_findInRow (Int.ofNat_lt.mp (Int.not_le.mp hin)) wanted

/-- A paragraph of a capture whose rows are counted from zero has a span, with rows in order. -/
theorem exists_recoverSpan?_of_nonneg {c : Capture} (htop : 0 ≤ c.rows.1) (hlow : 0 ≤ c.rows.2)
    (cleaned p : Text) (source : List Text) :
    ∃ span, recoverSpan? c cleaned p source = some span ∧ 0 ≤ span.rows.1 ∧
      span.rows.1 ≤ span.rows.2 := by
  obtain ⟨⟨first, last⟩, hlocate⟩ : ∃ place, locateRows cleaned.lines p.lines = place := ⟨_, rfl⟩
  have hstart : 0 ≤ min (c.rows.1 + first) (min c.rows.2 (source.length - 1 : Nat)) := by omega
  have hord := Int.le_max_right (min (c.rows.1 + last) (min c.rows.2 (source.length - 1 : Nat)))
    (min (c.rows.1 + first) (min c.rows.2 (source.length - 1 : Nat)))
  obtain ⟨opening, hopening⟩ := exists_findInRow_of_nonneg hstart source (firstContent p.lines)
  obtain ⟨closing, hclosing⟩ := exists_findInRow_of_nonneg (Int.le_trans hstart hord) source
    (firstContent p.lines.reverse)
  rw [recoverSpan?]
  simp only [hlocate, hopening, hclosing, Option.bind_eq_bind, Option.bind_some]
  exact ⟨_, rfl, hstart, hord⟩

end Comment

namespace Source

variable {s : Source} {c : Capture} {captures : List Capture}

theorem recordOf_eq_ok_iff {lines : List Text} {cleaned p : Text} {r : Record} :
    s.recordOf lines c cleaned p = .ok r ↔
      ∃ span, Comment.recoverSpan? c cleaned p lines = some span ∧ 0 ≤ span.rows.1 ∧
        span.rows.1 ≤ span.rows.2 ∧ r = s.recordAt c p span := by
  unfold recordOf
  cases hspan : Comment.recoverSpan? c cleaned p lines with
  | none => simp only [reduceCtorEq, false_and, exists_false]
  | some span =>
      simp only [Option.some.injEq, exists_eq_left']
      change (s.recordAt c p span).checkRows.orFail .invalid = .ok r ↔ _
      rw [Validated.orFail_eq_ok, Record.checkRows_eq_valid, eq_comm (a := r)]
      rfl

/-- Every record comes of a paragraph of one of the captures. -/
theorem exists_of_mem_buildRecords {records : List Record}
    (h : s.buildRecords captures = .ok records) {r : Record} (hr : r ∈ records) :
    ∃ c ∈ captures, ∃ p ∈ Comment.paragraphs s.language? (Comment.clean s.language? c.text),
      ∃ span : Span, 0 ≤ span.rows.1 ∧ span.rows.1 ≤ span.rows.2 ∧ r = s.recordAt c p span := by
  obtain ⟨groups, hgroups, rfl⟩ := Sequence.map_eq_ok.mp h
  obtain ⟨group, hgroup, hr⟩ := List.mem_flatten.mp hr
  obtain ⟨c, hc, hmade⟩ := Sequence.of_mem_right (Sequence.mapM_eq_ok.mp hgroups) hgroup
  obtain ⟨p, hp, hrecord⟩ := Sequence.of_mem_right (Sequence.mapM_eq_ok.mp hmade) hr
  obtain ⟨span, -, hrows⟩ := recordOf_eq_ok_iff.mp hrecord
  exact ⟨c, hc, p, hp, span, hrows⟩

theorem wellFormed_of_mem_buildRecords {records : List Record}
    (h : s.buildRecords captures = .ok records) : ∀ r ∈ records, r.WellFormed := by
  intro r hr
  obtain ⟨c, -, p, hp, span, hnonneg, hle, rfl⟩ := exists_of_mem_buildRecords h hr
  obtain ⟨htrim, hne⟩ := Comment.trimmed_of_mem_paragraphs hp
  exact ⟨htrim, hne, fun tag htag => absurd htag List.not_mem_nil, hnonneg, hle⟩

/-- Captures whose rows are counted from zero all give records. -/
theorem exists_buildRecords_of_nonneg (h : ∀ c ∈ captures, 0 ≤ c.rows.1 ∧ 0 ≤ c.rows.2) :
    ∃ records, s.buildRecords captures = .ok records := by
  have hstep : ∀ c ∈ captures, ∃ group, s.recordsOf s.lines c = .ok group := by
    intro c hc
    refine Sequence.exists_mapM_ok_iff.mpr fun p _ => ?_
    obtain ⟨span, hspan, hnonneg, hle⟩ := Comment.exists_recoverSpan?_of_nonneg (h c hc).1 (h c hc).2
      (Comment.clean s.language? c.text) p s.lines
    exact ⟨_, recordOf_eq_ok_iff.mpr ⟨span, hspan, hnonneg, hle, rfl⟩⟩
  obtain ⟨groups, hgroups⟩ := Sequence.exists_mapM_ok_iff.mpr hstep
  exact ⟨groups.flatten, Sequence.map_eq_ok.mpr ⟨groups, hgroups, rfl⟩⟩

variable {grammar : Grammar} {settings : Settings} {records : List Record}

theorem exists_captures_of_recordsByGrammar
    (h : s.recordsByGrammar grammar settings = .ok records) :
    ∃ captures, s.buildRecords captures = .ok records := by
  unfold recordsByGrammar at h
  obtain ⟨_, -, hsized⟩ := Sequence.bind_eq_ok.mp h
  split at hsized
  · cases hsized
  · obtain ⟨_, -, hparsed⟩ := Sequence.bind_eq_ok.mp hsized
    obtain ⟨captures, -, hbuilt⟩ := Sequence.bind_eq_ok.mp hparsed
    exact ⟨captures, hbuilt⟩

theorem exists_captures_of_extract (h : (s.extract grammar settings).2 = .ok records) :
    ∃ captures, s.buildRecords captures = .ok records := by
  unfold extract at h
  cases hgrammar : s.recordsByGrammar grammar settings with
  | ok found =>
      rw [hgrammar] at h
      cases h
      exact exists_captures_of_recordsByGrammar hgrammar
  | error f =>
      simp only [hgrammar] at h
      cases hnote : s.fallbackNote? f with
      | none =>
          rw [hnote] at h
          cases h
      | some note =>
          rw [hnote] at h
          exact ⟨_, h⟩

end Source

namespace Files

variable {files : Files} {grammar : Grammar} {settings : Settings}

theorem wellFormed_of_mem_extractFile {p : Path} {root : Option Path} {language : Option Text}
    {records : List Record}
    (h : (files.extractFile grammar settings p root language).2 = .ok records) :
    ∀ r ∈ records, r.WellFormed := by
  unfold extractFile at h
  split at h
  · cases h
  · rename_i s _
    obtain ⟨found, hfound, rfl⟩ := Sequence.map_eq_ok.mp h
    obtain ⟨captures, hcaptures⟩ := Source.exists_captures_of_extract hfound
    intro r hr
    obtain ⟨own, hown, rfl⟩ := List.mem_map.mp hr
    obtain ⟨htrim, hne, htags, hnonneg, hle⟩ :=
      Source.wellFormed_of_mem_buildRecords hcaptures own hown
    exact ⟨htrim, hne, htags, hnonneg, hle⟩

theorem wellFormed_of_mem_extractAmong (root p : Path) :
    ∀ r ∈ (files.extractAmong grammar settings root p).2.2, r.WellFormed := by
  unfold extractAmong
  cases hfile : files.extractFile grammar settings p (some root) none with
  | mk log result =>
      cases result with
      | ok records =>
          exact wellFormed_of_mem_extractFile (congrArg Prod.snd hfile)
      | error f =>
          intro r hr
          cases hr

end Files

end Marginalia
