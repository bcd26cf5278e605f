import Marginalia.Proofs.Agreement

/-!
Comment tokens by their shape: what opens one, and the first place at which it may end. The scan of
a text finds tokens of this shape only, and no place at which one begins is left between them.
-/

namespace Marginalia.Comment

/-! ## The shape of a token -/

/-- The first line of the text has `n` characters. -/
inductive FirstLine : Text → Nat → Prop where
  | whole {line : Text} : '\n' ∉ line → FirstLine line line.length
  | broken {line rest : Text} : '\n' ∉ line → FirstLine (line ++ '\n' :: rest) line.length

/-- The text begins with a comment token of `n` characters. -/
inductive BeginsToken : Language → Text → Nat → Prop where
  | slashes {rest : Text} {n : Nat} : FirstLine rest n →
      BeginsToken .java ('/' :: '/' :: rest) (2 + n)
  | block {rest : Text} {n : Nat} : Sequence.StandsFirst "*/" rest n →
      BeginsToken .java ('/' :: '*' :: rest) (2 + (n + 2))
  | hash {rest : Text} {n : Nat} : FirstLine rest n →
      BeginsToken .python ('#' :: rest) (1 + n)
  | fenced {mark rest : Text} {n : Nat} : mark = "'''" ∨ mark = "\"\"\"" →
      Sequence.StandsFirst mark rest n → BeginsToken .python (mark ++ rest) (3 + (n + 3))
  | quoted {rest : Text} {n : Nat} : Sequence.StandsFirst "\"" rest n →
      BeginsToken .pharo ('"' :: rest) (1 + (n + 1))

variable {language : Language} {text mark close : Text} {n : Nat}

theorem firstLine_lineLength (text : Text) : FirstLine text (lineLength text) := by
  induction text with
  | nil => exact .whole List.not_mem_nil
  | cons c rest ih =>
      by_cases hc : c = '\n'
      · subst hc
        exact @FirstLine.broken [] rest List.not_mem_nil
      · have hlength : lineLength (c :: rest) = lineLength rest + 1 := by
          rw [lineLength, List.takeWhile_cons_of_pos (by simpa using hc)]
          rfl
        rw [hlength]
        generalize lineLength rest = n at ih
        cases ih with
        | whole hline =>
            exact @FirstLine.whole (c :: rest) (by simp [hline, Ne.symm hc])
        | broken hline =>
            exact @FirstLine.broken (c :: _) _ (by simp [hline, Ne.symm hc])

theorem firstLine_iff : FirstLine text n ↔ lineLength text = n := by
  constructor
  · intro h
    cases h with
    | whole hline =>
        rw [lineLength, List.takeWhile_eq_self_iff.mpr]
        intro c hc
        exact bne_iff_ne.mpr fun he => hline (he ▸ hc)
    | broken hline =>
        rw [lineLength, List.takeWhile_append_of_pos, List.takeWhile_cons_of_neg, List.append_nil]
        · simp
        · intro c hc
          exact bne_iff_ne.mpr fun he => hline (he ▸ hc)
  · rintro rfl
    exact firstLine_lineLength text

theorem lengthThrough?_eq_some_iff :
    lengthThrough? close text = some n ↔
      ∃ i, Sequence.StandsFirst close text i ∧ i + close.length = n := by
  rw [lengthThrough?, Option.map_eq_some_iff]
  simp only [Sequence.indexOf?_eq_some_iff]

theorem fencedLength?_eq_some_iff :
    fencedLength? mark text = some n ↔ ∃ rest, mark ++ rest = text ∧
      ∃ i, Sequence.StandsFirst mark rest i ∧ mark.length + (i + mark.length) = n := by
  rw [fencedLength?]
  constructor
  · intro h
    split at h
    · rename_i hp
      obtain ⟨rest, rfl⟩ := List.isPrefixOf_iff_prefix.mp hp
      rw [List.drop_left] at h
      obtain ⟨m, hm, rfl⟩ := Option.map_eq_some_iff.mp h
      obtain ⟨i, hi, rfl⟩ := lengthThrough?_eq_some_iff.mp hm
      exact ⟨rest, rfl, i, hi, rfl⟩
    · cases h
  · rintro ⟨rest, rfl, i, hi, rfl⟩
    rw [if_pos (List.isPrefixOf_iff_prefix.mpr (List.prefix_append mark rest)), List.drop_left,
      lengthThrough?_eq_some_iff.mpr ⟨i, hi, rfl⟩]
    rfl

theorem tokenLength?_python (h : text.head? ≠ some '#') :
    tokenLength? .python text = (fencedLength? "'''" text).or (fencedLength? "\"\"\"" text) := by
  rw [tokenLength?]
  intro rest htext
  rw [htext] at h
  exact h rfl

theorem beginsToken_of_tokenLength? (h : tokenLength? language text = some n) :
    BeginsToken language text n := by
  cases language with
  | java =>
      simp only [tokenLength?] at h
      split at h
      · obtain ⟨m, hm, rfl⟩ := Option.map_eq_some_iff.mp h
        obtain ⟨i, hi, rfl⟩ := lengthThrough?_eq_some_iff.mp hm
        exact .block hi
      · cases h
        exact .slashes (firstLine_lineLength _)
      · cases h
  | python =>
      simp only [tokenLength?] at h
      split at h
      · cases h
        exact .hash (firstLine_lineLength _)
      · rcases Option.or_eq_some_iff.mp h with h | ⟨-, h⟩
        · obtain ⟨rest, rfl, i, hi, rfl⟩ := fencedLength?_eq_some_iff.mp h
          exact .fenced (.inl rfl) hi
        · obtain ⟨rest, rfl, i, hi, rfl⟩ := fencedLength?_eq_some_iff.mp h
          exact .fenced (.inr rfl) hi
  | pharo =>
      obtain ⟨rest, rfl, i, hi, rfl⟩ := fencedLength?_eq_some_iff.mp h
      exact .quoted hi

theorem tokenLength?_eq_some_iff :
    tokenLength? language text = some n ↔ BeginsToken language text n := by
  constructor
  · exact beginsToken_of_tokenLength?
  · intro h
    cases h with
    | slashes hline =>
        rw [tokenLength?, firstLine_iff.mp hline]
    | block hclose =>
        rw [tokenLength?, lengthThrough?_eq_some_iff.mpr ⟨_, hclose, rfl⟩]
        rfl
    | hash hline =>
        rw [tokenLength?, firstLine_iff.mp hline]
    | @fenced mark rest i hmark hclose =>
        have hlength := fencedLength?_eq_some_iff.mpr ⟨rest, rfl, i, hclose, rfl⟩
        have hhash : (mark ++ rest).head? ≠ some '#' := by
          rcases hmark with rfl | rfl
          · exact fun he => absurd (Option.some.inj he) (by decide)
          · exact fun he => absurd (Option.some.inj he) (by decide)
        rw [tokenLength?_python hhash]
        rcases hmark with rfl | rfl
        · rw [hlength]
          rfl
        · have hother : fencedLength? "'''" (("\"\"\"" : Text) ++ rest) = none := rfl
          rw [hother, hlength]
          rfl
    | quoted hclose => exact fencedLength?_eq_some_iff.mpr ⟨_, rfl, _, hclose, rfl⟩

/-! ## The places that the tokens leave -/

theorem tokenLength?_nil (language : Language) : tokenLength? language [] = none := by
  cases language <;> rfl

theorem tokenLength?_ne_zero : tokenLength? language text ≠ some 0 := by
  intro h
  obtain ⟨front, c, rest, -, hn, -⟩ := endsInRow_of_tokenLength? h
  omega

/-- No token begins at a place that no token found covers. -/
theorem tokenLength?_drop {offset covered i : Nat} (hi : covered ≤ i)
    (h : ∀ place ∈ tokensFrom language offset covered text,
      ¬ (place.1 ≤ offset + i ∧ offset + i < place.2)) :
    tokenLength? language (text.drop i) = none := by
  induction text generalizing offset covered i with
  | nil =>
      rw [List.drop_nil]
      exact tokenLength?_nil language
  | cons c rest ih =>
      have hnext : ∀ j, offset + 1 + j = offset + (j + 1) := fun j => by omega
      cases covered with
      | succ covered =>
          obtain ⟨j, rfl⟩ : ∃ j, i = j + 1 := ⟨i - 1, by omega⟩
          rw [tokensFrom] at h
          refine @ih (offset + 1) covered j (Nat.le_of_succ_le_succ hi) ?_
          simpa only [hnext] using h
      | zero =>
          rw [tokensFrom] at h
          split at h
          · rename_i n _
            obtain ⟨hthis, hrest⟩ := List.forall_mem_cons.mp h
            obtain ⟨j, rfl⟩ : ∃ j, i = j + 1 := ⟨i - 1, by omega⟩
            refine @ih (offset + 1) n j (by omega) ?_
            simpa only [hnext] using hrest
          · rename_i hnone
            cases i with
            | zero =>
                cases hlength : tokenLength? language (c :: rest) with
                | none => exact hlength
                | some n =>
                    cases n with
                    | zero => exact absurd hlength tokenLength?_ne_zero
                    | succ n => exact absurd hlength (hnone n)
            | succ j =>
                refine @ih (offset + 1) 0 j (Nat.zero_le j) ?_
                simpa only [hnext] using h

/-! ## The captures of a text -/

/-- The capture has the characters of the token that begins at its first offset, and its rows and
columns cut these out of the lines of the text. -/
structure CapturesToken (language : Language) (text : Text) (c : Capture) : Prop where
  begins : BeginsToken language (text.drop c.offsets.1) (c.offsets.2 - c.offsets.1)
  ordered : c.offsets.1 < c.offsets.2
  inside : c.offsets.2 ≤ text.length
  token : c.text = Sequence.slice text c.offsets.1 c.offsets.2
  cut : ∃ start stop : Nat × Nat, c.rows = (↑start.1, ↑stop.1) ∧ c.columns = (↑start.2, ↑stop.2) ∧
    start.1 ≤ stop.1 ∧ stop.1 < text.lines.length ∧ Text.cut text.lines start stop = c.text

theorem tokenCaptures_eq (language : Language) (path text : Text) :
    tokenCaptures ⟨path, language.name, text⟩ =
      (tokens language text).map (tokenCapture language text) := by
  have hnamed : Language.named? language.name = some language := by cases language <;> rfl
  rw [tokenCaptures, hnamed]

theorem capturesToken_of_mem_tokens {place : Nat × Nat} (h : place ∈ tokens language text) :
    CapturesToken language text (tokenCapture language text place) := by
  obtain ⟨hlt, hle⟩ := bounds_of_mem_tokens h
  have hstands := tokenCapture_standsAt ⟨[], language.name, text⟩ language h
  refine ⟨?_, hlt, hle, rfl, _, _, hstands.rows, hstands.columns, hstands.ordered, ?_, ?_⟩
  · obtain ⟨before, tail, n, htext, hstart, hstop, hlength⟩ := exists_of_mem_tokensFrom h
    have hdrop : text.drop place.1 = tail := by
      rw [htext, hstart, Nat.zero_add, List.drop_left]
    have hn : place.2 - place.1 = n := by omega
    change BeginsToken language (text.drop place.1) (place.2 - place.1)
    rw [hdrop, hn]
    exact tokenLength?_eq_some_iff.mp hlength
  · exact text.rowAt_lt_length_lines place.2
  · exact Text.cut_placeAt (Nat.le_of_lt hlt) hle

/-- The comments that a text shows by itself are its leftmost tokens, one behind the other, and a
token begins only where one of them stands. -/
theorem tokenCaptures_leftmost (language : Language) (path text : Text) :
    (tokenCaptures ⟨path, language.name, text⟩).Pairwise (fun a b => a.offsets.2 ≤ b.offsets.1) ∧
      (∀ c ∈ tokenCaptures ⟨path, language.name, text⟩, CapturesToken language text c) ∧
      ∀ offset n, BeginsToken language (text.drop offset) n →
        ∃ c ∈ tokenCaptures ⟨path, language.name, text⟩,
          c.offsets.1 ≤ offset ∧ offset < c.offsets.2 := by
  rw [tokenCaptures_eq]
  refine ⟨List.pairwise_map.mpr (tokensFrom_ascending language 0 0 text).2, ?_, ?_⟩
  · intro c hc
    obtain ⟨place, hplace, rfl⟩ := List.mem_map.mp hc
    exact capturesToken_of_mem_tokens hplace
  · intro offset n hbegins
    by_contra hnone
    have huncovered : ∀ place ∈ tokensFrom language 0 0 text,
        ¬ (place.1 ≤ 0 + offset ∧ 0 + offset < place.2) := by
      intro place hplace hcovers
      rw [Nat.zero_add] at hcovers
      exact hnone ⟨_, List.mem_map_of_mem hplace, hcovers⟩
    have hlength := tokenLength?_eq_some_iff.mpr hbegins
    rw [tokenLength?_drop (Nat.zero_le offset) huncovered] at hlength
    cases hlength

/-- A block comment, an opener that nothing closes, and a comment up to the end of the line. -/
def unclosed : Text := "/* a */ /*/ // c"

theorem tokenCaptures_leftmost_unclosed :
    (tokenCaptures ⟨[], Language.java.name, unclosed⟩).map Capture.offsets = [(0, 7), (12, 16)] ∧
    BeginsToken .java (unclosed.drop 12) 4 ∧
    ∃ c ∈ tokenCaptures ⟨[], Language.java.name, unclosed⟩, CapturesToken .java unclosed c ∧
      c.offsets.1 ≤ 12 ∧ 12 < c.offsets.2 := by
  have hline : FirstLine " c" 2 := .whole (by decide)
  have hbegins : BeginsToken .java (unclosed.drop 12) 4 := .slashes hline
  obtain ⟨-, hcaptures, hcovered⟩ := tokenCaptures_leftmost .java [] unclosed
  obtain ⟨c, hc, hcovers⟩ := hcovered 12 4 hbegins
  exact ⟨by decide, hbegins, c, hc, hcaptures c hc, hcovers⟩

end Marginalia.Comment
