import Marginalia.Proofs.LeadingRows
import Marginalia.Proofs.Validity

/-!
What stands between a source and the records of its syntax tree. Most of these obstacles are avoided
by the look of the text, but not all: some failures are not among those that are met so.
-/

namespace Marginalia

/-! ## Captures that fail -/

namespace SyntaxTree

/-- The bytes at hand have the rows in which the node begins and ends. -/
structure HasRows (source : Bytes) (t : SyntaxTree) : Prop where
  opens : t.label.start.row < rowCount source
  closes : t.label.stop.column = 0 → t.label.start.row < t.label.stop.row →
    t.label.stop.row ≤ rowCount source

variable {source : Bytes} {kind : CaptureKind} {t : SyntaxTree} {context : Context}
  {language : Language}

theorem exists_captureOf?_iff :
    (∃ c, captureOf? source kind t.label.start t.label.stop context = some c) ↔
      t.HasRows source := by
  constructor
  · intro h
    obtain ⟨c, hc⟩ := h
    obtain ⟨-, hopens, hcloses⟩ := captureOf?_takenFrom hc
    exact ⟨hopens, hcloses⟩
  · intro h
    exact exists_captureOf? kind context h.opens h.closes

/-- A tree has captures just where the bytes of its root have the rows of every captured node. -/
theorem exists_captures?_iff :
    (∃ captures, t.captures? language = some captures) ↔
      ∀ u ∈ t.selection language, u.2.focus.HasRows t.label.text := by
  unfold captures?
  simp only [Sequence.mapM_eq_some]
  constructor
  · intro h u hu
    obtain ⟨captures, hcaptures⟩ := h
    obtain ⟨c, -, hc⟩ := Sequence.exists_of_mem_left hcaptures hu
    exact exists_captureOf?_iff.mp ⟨c, hc⟩
  · intro h
    apply Sequence.exists_forall₂
    intro u hu
    exact exists_captureOf?_iff.mpr (h u hu)

theorem nonneg_rows_of_captures? {captures : List Capture}
    (h : t.captures? language = some captures) : ∀ c ∈ captures, 0 ≤ c.rows.1 ∧ 0 ≤ c.rows.2 := by
  intro c hc
  obtain ⟨u, -, hu⟩ := Sequence.of_mem_right (Sequence.mapM_eq_some.mp h) hc
  rw [(captureOf?_takenFrom hu).1.rows]
  exact ⟨Int.natCast_nonneg _, Int.natCast_nonneg _⟩

end SyntaxTree

/-! ## Obstacles -/

/-- What can keep the records of a syntax tree from being found. -/
inductive Obstacle where
  | noGrammar
  | tooLarge
  | noTree
  | timedOut
  | refused (reason : Text)
  | broken (reason : Text)
  | rowMissing

/-- The obstacle is avoided by doing without the syntax tree. -/
def Obstacle.isAvoided : Obstacle → Bool
  | noGrammar | tooLarge | noTree | timedOut | refused _ => true
  | broken _ | rowMissing => false

namespace Source

variable (s : Source) (grammar : Grammar) (settings : Settings)

/-- What an obstacle fails with. -/
def failureAt : Obstacle → Failure
  | .noGrammar => .language (.noGrammar s.label)
  | .tooLarge => .tooLarge s.path s.size settings.maxFileSize
  | .noTree => .noTree s.label
  | .timedOut => .parseTimeout s.label settings.parseTimeout
  | .refused reason => .parserFailed s.label reason
  | .broken reason => .wrongType reason
  | .rowMissing => .outOfRange

/-- The obstacle that a source meets. -/
inductive Meets : Obstacle → Prop where
  | noGrammar : (∀ language, s.language? = some language → language.hasGrammar = false) →
      Meets .noGrammar
  | tooLarge {language : Language} : s.language? = some language → language.hasGrammar = true →
      settings.maxFileSize < s.size → Meets .tooLarge
  | noTree {language : Language} : s.Parsed settings language →
      grammar language s.text = .nothing → Meets .noTree
  | timedOut {language : Language} : s.Parsed settings language →
      grammar language s.text = .timedOut → Meets .timedOut
  | refused {language : Language} {reason : Text} : s.Parsed settings language →
      grammar language s.text = .refused reason → Meets (.refused reason)
  | broken {language : Language} {reason : Text} : s.Parsed settings language →
      grammar language s.text = .broken reason → Meets (.broken reason)
  | rowMissing {language : Language} {t : SyntaxTree} {u : CaptureKind × Cursor} :
      s.Parsed settings language → grammar language s.text = .tree t →
      u ∈ t.selection language → ¬ u.2.focus.HasRows t.label.text → Meets .rowMissing

variable {s grammar settings} {language : Language} {t : SyntaxTree} {o : Obstacle}

/-- An obstacle that is met is what the search in the tree fails with. -/
theorem Meets.recordsByGrammar_eq (h : s.Meets grammar settings o) :
    s.recordsByGrammar grammar settings = .error (s.failureAt settings o) := by
  cases h with
  | noGrammar hnone =>
      have hwith : Language.withGrammar s.label = .error (.language (.noGrammar s.label)) := by
        unfold Language.withGrammar
        cases hnamed : Language.named? s.label with
        | none => rfl
        | some language =>
            simp only [Option.filter_some, hnone language hnamed, Bool.false_eq_true, if_false]
      rw [recordsByGrammar, hwith]
      rfl
  | tooLarge hnamed hgrammar hlarge =>
      have hwith := Language.withGrammar_of_named hnamed hgrammar
      simp only [recordsByGrammar, hwith, bind, Except.bind, gt_iff_lt, hlarge, if_true]
      rfl
  | noTree hparsed hgrammar => rw [hparsed.recordsByGrammar_eq, hgrammar]; rfl
  | timedOut hparsed hgrammar => rw [hparsed.recordsByGrammar_eq, hgrammar]; rfl
  | refused hparsed hgrammar => rw [hparsed.recordsByGrammar_eq, hgrammar]; rfl
  | broken hparsed hgrammar => rw [hparsed.recordsByGrammar_eq, hgrammar]; rfl
  | @rowMissing language t u hparsed hgrammar hu hrows =>
      have hnone : t.captures? language = none := by
        rw [Option.eq_none_iff_forall_ne_some]
        intro captures hcaptures
        exact hrows (SyntaxTree.exists_captures?_iff.mp ⟨captures, hcaptures⟩ u hu)
      rw [hparsed.recordsByGrammar_eq, hgrammar]
      simp only [hparsed.treeCaptures_eq, hnone]
      rfl

theorem Meets.of_captures?_eq_none (hparsed : s.Parsed settings language)
    (houtcome : grammar language s.text = .tree t) (h : t.captures? language = none) :
    s.Meets grammar settings .rowMissing := by
  by_contra hnot
  have hall : ∀ u ∈ t.selection language, u.2.focus.HasRows t.label.text := by
    intro u hu
    by_contra hrows
    exact hnot (.rowMissing hparsed houtcome hu hrows)
  obtain ⟨captures, hcaptures⟩ := SyntaxTree.exists_captures?_iff.mpr hall
  rw [h] at hcaptures
  cases hcaptures

/-- Where no obstacle is met, the records are found in the tree. -/
theorem exists_recordsByGrammar (h : ∀ o, ¬ s.Meets grammar settings o) :
    ∃ records, s.recordsByGrammar grammar settings = .ok records := by
  obtain ⟨language, hnamed, hgrammar⟩ :
      ∃ language, s.language? = some language ∧ language.hasGrammar = true := by
    by_contra hnone
    apply h .noGrammar
    apply Meets.noGrammar
    intro language hnamed
    cases hgrammar : language.hasGrammar with
    | false => rfl
    | true => exact absurd ⟨language, hnamed, hgrammar⟩ hnone
  have hsmall : (s.size : Int) ≤ settings.maxFileSize :=
    Int.not_lt.mp fun hlarge => h .tooLarge (.tooLarge hnamed hgrammar hlarge)
  have hparsed : s.Parsed settings language := ⟨hnamed, hgrammar, hsmall⟩
  cases houtcome : grammar language s.text with
  | nothing => exact absurd (.noTree hparsed houtcome) (h .noTree)
  | timedOut => exact absurd (.timedOut hparsed houtcome) (h .timedOut)
  | refused reason => exact absurd (.refused hparsed houtcome) (h (.refused reason))
  | broken reason => exact absurd (.broken hparsed houtcome) (h (.broken reason))
  | tree t =>
      cases hcaptures : t.captures? language with
      | none => exact absurd (.of_captures?_eq_none hparsed houtcome hcaptures) (h .rowMissing)
      | some captures =>
          obtain ⟨records, hrecords⟩ := exists_buildRecords_of_nonneg (s := s)
            (SyntaxTree.nonneg_rows_of_captures? hcaptures)
          refine ⟨records, ?_⟩
          rw [hparsed.recordsByGrammar_eq, houtcome]
          simp only [hparsed.treeCaptures_eq, hcaptures]
          exact hrecords

/-! ## Doing without the tree -/

theorem isSome_fallbackNote?_failureAt (s : Source) (settings : Settings) (o : Obstacle) :
    (s.fallbackNote? (s.failureAt settings o)).isSome = o.isAvoided := by
  cases o <;> rfl

/-- The look of the text always gives records. None of them says anything of the code around it. -/
theorem exists_recordsByTokens (s : Source) :
    ∃ records, s.recordsByTokens = .ok records ∧
      ∀ r ∈ records, r.level = .inline ∧ r.className = [] := by
  obtain ⟨groups, hgroups, -⟩ :=
    exists_buildRecords (s := s) fun c hc => Comment.faithful_of_mem_tokenCaptures hc
  refine ⟨groups.flatten, hgroups, ?_⟩
  intro r hr
  obtain ⟨c, hc, p, -, span, -, -, rfl⟩ := exists_of_mem_buildRecords hgroups hr
  have hcontext : c.context = .unknown := by
    unfold Comment.tokenCaptures at hc
    split at hc
    · obtain ⟨place, -, rfl⟩ := List.mem_map.mp hc
      rfl
    · cases hc
  simp [recordAt, hcontext, Context.unknown]

/-- Extraction takes the records of the tree where no obstacle is met, and goes by the look of the
text where the obstacle is one of those that are avoided so. Any other obstacle it fails with. -/
theorem extract_avoids_iff (s : Source) (grammar : Grammar) (settings : Settings) :
    ∃ fallback, s.recordsByTokens = .ok fallback ∧
      (∀ r ∈ fallback, r.level = .inline ∧ r.className = []) ∧
      (∀ o, s.Meets grammar settings o →
        ((∃ note, s.fallbackNote? (s.failureAt settings o) = some note ∧
          s.extract grammar settings = ([note], .ok fallback)) ↔ o.isAvoided = true) ∧
        (s.extract grammar settings = ([], .error (s.failureAt settings o)) ↔
          o.isAvoided = false)) ∧
      ((∀ o, ¬ s.Meets grammar settings o) ↔
        ∃ records, s.recordsByGrammar grammar settings = .ok records ∧
          s.extract grammar settings = ([], .ok records)) := by
  obtain ⟨fallback, hfallback, hplain⟩ := s.exists_recordsByTokens
  refine ⟨fallback, hfallback, hplain, ?_, ?_⟩
  · intro o ho
    have hnote := isSome_fallbackNote?_failureAt s settings o
    rw [← hnote]
    cases hfound : s.fallbackNote? (s.failureAt settings o) with
    | none => simp [extract, ho.recordsByGrammar_eq, hfound]
    | some note => simp [extract, ho.recordsByGrammar_eq, hfound, hfallback]
  · constructor
    · intro h
      obtain ⟨records, hrecords⟩ := exists_recordsByGrammar h
      refine ⟨records, hrecords, ?_⟩
      rw [extract, hrecords]
    · intro h o ho
      obtain ⟨records, hrecords, -⟩ := h
      rw [ho.recordsByGrammar_eq] at hrecords
      cases hrecords

/-- A grammar whose parser always breaks. -/
def brokenGrammar : Grammar := fun _ _ => .broken "wrong type"

set_option maxRecDepth 10000 in
/-- Below one empty row, the row of a single comment is missing from the only row of the root; the
comment is lost, although the look of the text shows it. A parser that breaks has the same effect. -/
theorem single_not_avoided :
    (single.moved 1).Meets (treesOf single singleTree 1) smallFiles .rowMissing ∧
    (single.moved 1).recordsByTokens =
      .ok [⟨0, "python", "a", [], [], .inline, [], (1, 1), (2, 3), []⟩] ∧
    (single.moved 1).extract (treesOf single singleTree 1) smallFiles = ([], .error .outOfRange) ∧
    single.Meets brokenGrammar smallFiles (.broken "wrong type") ∧
    single.recordsByTokens = .ok [⟨0, "python", "a", [], [], .inline, [], (0, 0), (2, 3), []⟩] ∧
    single.extract brokenGrammar smallFiles = ([], .error (.wrongType "wrong type")) := by
  have hmoved : (single.moved 1).Parsed smallFiles .python := ⟨rfl, rfl, by decide⟩
  have hsingle : single.Parsed smallFiles .python := ⟨rfl, rfl, by decide⟩
  exact ⟨.of_captures?_eq_none hmoved rfl rfl, rfl, rfl, .broken hsingle rfl, rfl, rfl⟩

end Source

end Marginalia
