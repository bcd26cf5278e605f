import Marginalia.Comment.Token
import Marginalia.Proofs.Cleaning
import Marginalia.Proofs.Spans

/-!
Captures that stand in their source. The rows of the cleaned comment then stand one below the other
in the rows of the source; the comments that a text shows by itself are captured in this way.
-/

namespace Marginalia

/-- The capture stands in the source from one place to another, both told as rows and columns of
characters: its text is what stands between them, perhaps with one more line feed. -/
structure Capture.StandsAt (c : Capture) (s : Source) (start stop : Nat × Nat) : Prop where
  rows : c.rows = (↑start.1, ↑stop.1)
  columns : c.columns = (↑start.2, ↑stop.2)
  ordered : start.1 ≤ stop.1
  inside : stop.1 < s.lineCount
  text : c.text = Text.cut s.lines start stop ∨ c.text = Text.cut s.lines start stop ++ ['\n']

/-- The capture stands somewhere in the source. -/
def Capture.Faithful (c : Capture) (s : Source) : Prop := ∃ start stop, c.StandsAt s start stop

theorem Source.length_lines (s : Source) : s.lines.length = s.lineCount := s.text.length_lines

/-! ## Rows that stand in the source -/

namespace Comment

variable {source rows : List Text} {top bottom : Nat}

theorem StandsFrom.within {inner : List Text} (hs : StandsFrom source rows top bottom)
    (h : Text.RowsWithin inner rows) : StandsFrom source inner top bottom := by
  intro j row hrow hne
  obtain ⟨outer, houter, hin⟩ := Sequence.getElem?_of_forall₂ h hrow
  have hne' : outer ≠ [] := fun he => hne (List.infix_nil.mp (he ▸ hin))
  obtain ⟨hj, line, hline, hwithin⟩ := hs j outer houter hne'
  exact ⟨hj, line, hline, hin.trans hwithin⟩

theorem standsFrom_between (source : List Text) (top bottom : Nat) :
    StandsFrom source (Sequence.between source (top, bottom)) top bottom := by
  intro j row hrow _
  rw [Sequence.getElem?_between] at hrow
  split at hrow
  · rename_i hj
    exact ⟨hj, row, hrow, List.infix_rfl⟩
  · cases hrow

theorem StandsFrom.concat_nil (hs : StandsFrom source rows top bottom) :
    StandsFrom source (rows ++ [[]]) top bottom := by
  intro j row hrow hne
  rw [List.getElem?_append] at hrow
  split at hrow
  · exact hs j row hrow hne
  · exact absurd (List.mem_singleton.mp (List.mem_of_getElem? hrow)) hne

end Comment

/-- The rows of what is cut out are whole but for the first and the last one. -/
theorem Text.lines_cut {rows : List Text} {start stop : Nat × Nat} (hrow : start.1 ≤ stop.1)
    (hin : stop.1 < rows.length) (hno : ∀ row ∈ rows, '\n' ∉ row) :
    (Text.cut rows start stop).lines = Sequence.mapFirst (·.drop start.2)
      (Sequence.mapLast (·.take stop.2) (Sequence.slice rows start.1 (stop.1 + 1))) := by
  have hwithin : Text.RowsWithin
      (Sequence.mapFirst (·.drop start.2)
        (Sequence.mapLast (·.take stop.2) (Sequence.slice rows start.1 (stop.1 + 1))))
      (Sequence.slice rows start.1 (stop.1 + 1)) :=
    .trans (.mapFirst fun row _ => (List.drop_suffix start.2 row).isInfix)
      (.mapLast fun row => (List.take_prefix stop.2 row).isInfix)
  rw [Text.cut, Text.lines_unlines]
  · rw [← List.length_pos_iff, hwithin.length_eq, Sequence.slice, List.length_drop,
      List.length_take]
    omega
  · exact hwithin.not_mem fun row hr =>
      hno row (List.mem_of_mem_take (List.mem_of_mem_drop hr))

theorem Text.lines_cut_within {rows : List Text} {start stop : Nat × Nat} (hrow : start.1 ≤ stop.1)
    (hin : stop.1 < rows.length) (hno : ∀ row ∈ rows, '\n' ∉ row) :
    Text.RowsWithin (Text.cut rows start stop).lines
      (Sequence.between rows (start.1, stop.1)) := by
  rw [Text.lines_cut hrow hin hno]
  exact .trans (.mapFirst fun row _ => (List.drop_suffix start.2 row).isInfix)
    (.mapLast fun row => (List.take_prefix stop.2 row).isInfix)

/-- What is cut out of a text stands there, also with one more line feed. -/
theorem Comment.standsFrom_cut {source text : Text} {start stop : Nat × Nat}
    (hrow : start.1 ≤ stop.1) (hin : stop.1 < source.lines.length)
    (ht : text = Text.cut source.lines start stop ∨
      text = Text.cut source.lines start stop ++ ['\n']) :
    Comment.StandsFrom source.lines text.lines start.1 stop.1 := by
  have hcut := (Comment.standsFrom_between source.lines start.1 stop.1).within
    (Text.lines_cut_within hrow hin fun row => Text.not_mem_of_mem_lines)
  rcases ht with rfl | rfl
  · exact hcut
  · rw [Text.lines_append_newline]
    exact hcut.concat_nil

namespace Capture

variable {c : Capture} {s : Source} {start stop : Nat × Nat}

theorem StandsAt.standsFrom (h : c.StandsAt s start stop) :
    Comment.StandsFrom s.lines c.text.lines start.1 stop.1 :=
  Comment.standsFrom_cut h.ordered (s.length_lines ▸ h.inside) h.text

theorem StandsAt.clean_standsFrom (h : c.StandsAt s start stop) (language : Option Language) :
    Comment.StandsFrom s.lines (Comment.clean language c.text).lines start.1 stop.1 :=
  h.standsFrom.within (Comment.clean_within language c.text)

end Capture

/-! ## Tokens -/

namespace Comment

/-- The text begins with a stretch of `n` characters whose last one ends no line. -/
def EndsInRow (n : Nat) (text : Text) : Prop :=
  ∃ front c rest, text = front ++ c :: rest ∧ n = front.length + 1 ∧ c ≠ '\n'

theorem EndsInRow.append {n : Nat} {text : Text} (h : EndsInRow n text) (front : Text) :
    EndsInRow (front.length + n) (front ++ text) := by
  obtain ⟨middle, c, rest, rfl, rfl, hc⟩ := h
  refine ⟨front ++ middle, c, rest, by rw [List.append_assoc], ?_, hc⟩
  rw [List.length_append, Nat.add_assoc]

theorem endsInRow_of_lengthThrough? (front : Text) {c : Char} (hc : c ≠ '\n') {text : Text}
    {n : Nat} (h : lengthThrough? (front ++ [c]) text = some n) : EndsInRow n text := by
  obtain ⟨i, hi, rfl⟩ := Option.map_eq_some_iff.mp h
  obtain ⟨hle, rest, hrest⟩ := Sequence.indexOf?_eq_some hi
  refine ⟨text.take i ++ front, c, rest, ?_, ?_, hc⟩
  · rw [List.append_assoc, ← List.singleton_append, ← List.append_assoc front, hrest,
      List.take_append_drop]
  · rw [List.length_append, List.length_append, List.length_take_of_le hle, Nat.add_assoc]
    rfl

theorem endsInRow_of_fencedLength? (front : Text) {c : Char} (hc : c ≠ '\n') {text : Text}
    {n : Nat} (h : fencedLength? (front ++ [c]) text = some n) : EndsInRow n text := by
  rw [fencedLength?] at h
  split at h
  · rename_i hp
    obtain ⟨rest, rfl⟩ := List.isPrefixOf_iff_prefix.mp hp
    rw [List.drop_left] at h
    obtain ⟨m, hm, rfl⟩ := Option.map_eq_some_iff.mp h
    exact (endsInRow_of_lengthThrough? front hc hm).append _
  · cases h

theorem endsInRow_lineLength (front : Text) {c : Char} (hc : c ≠ '\n') (rest : Text) :
    EndsInRow (front.length + 1 + lineLength rest) (front ++ c :: rest) := by
  have hsplit := List.takeWhile_append_dropWhile (p := (· != '\n')) (l := rest)
  rcases List.eq_nil_or_concat' (rest.takeWhile (· != '\n')) with hnil | ⟨line, d, hline⟩
  · exact ⟨front, c, rest, rfl, by rw [lineLength, hnil]; rfl, hc⟩
  · have hd : (d != '\n') = true :=
      List.mem_takeWhile_imp (p := (· != '\n')) (l := rest) (hline ▸ List.mem_concat_self)
    rw [hline] at hsplit
    refine ⟨front ++ c :: line, d, rest.dropWhile (· != '\n'), ?_, ?_, bne_iff_ne.mp hd⟩
    · calc front ++ c :: rest
          = front ++ c :: (line ++ [d] ++ rest.dropWhile (· != '\n')) := by rw [hsplit]
        _ = (front ++ c :: line) ++ d :: rest.dropWhile (· != '\n') := by simp
    · rw [lineLength, hline]
      simp only [List.length_append, List.length_cons, List.length_nil]
      omega

theorem endsInRow_of_tokenLength? {language : Language} {text : Text} {n : Nat}
    (h : tokenLength? language text = some n) : EndsInRow n text := by
  cases language with
  | java =>
      simp only [tokenLength?] at h
      split at h
      · rename_i rest
        obtain ⟨m, hm, rfl⟩ := Option.map_eq_some_iff.mp h
        exact (endsInRow_of_lengthThrough? "*" (c := '/') (by decide) hm).append "/*"
      · rename_i rest
        cases h
        exact endsInRow_lineLength "/" (by decide) rest
      · cases h
  | python =>
      simp only [tokenLength?] at h
      split at h
      · rename_i rest
        cases h
        exact endsInRow_lineLength [] (by decide) rest
      · rcases Option.or_eq_some_iff.mp h with h | ⟨-, h⟩
        · exact endsInRow_of_fencedLength? "''" (by decide) h
        · exact endsInRow_of_fencedLength? "\"\"" (by decide) h
  | pharo => exact endsInRow_of_fencedLength? [] (c := '"') (by decide) h

/-- Every token stands in the text behind the offset where the search begins. -/
theorem exists_of_mem_tokensFrom {language : Language} {offset covered : Nat} {text : Text}
    {place : Nat × Nat} (h : place ∈ tokensFrom language offset covered text) :
    ∃ before tail n, text = before ++ tail ∧ place.1 = offset + before.length ∧
      place.2 = place.1 + n ∧ tokenLength? language tail = some n := by
  induction text generalizing offset covered with
  | nil => cases h
  | cons c rest ih =>
      have hrest : ∀ covered, place ∈ tokensFrom language (offset + 1) covered rest →
          ∃ before tail n, c :: rest = before ++ tail ∧ place.1 = offset + before.length ∧
            place.2 = place.1 + n ∧ tokenLength? language tail = some n := by
        intro covered h
        obtain ⟨before, tail, n, rfl, ha, hb, hn⟩ := ih h
        exact ⟨c :: before, tail, n, rfl, by rw [ha, List.length_cons]; omega, hb, hn⟩
      cases covered with
      | succ covered => exact hrest covered h
      | zero =>
          rw [tokensFrom] at h
          split at h
          · rename_i n hlen
            rcases List.mem_cons.mp h with rfl | h
            · exact ⟨[], c :: rest, n + 1, rfl, rfl, rfl, hlen⟩
            · exact hrest n h
          · exact hrest 0 h

theorem tokenCapture_standsAt (s : Source) (language : Language) {place : Nat × Nat}
    (h : place ∈ tokens language s.text) :
    (tokenCapture language s.text place).StandsAt s (s.text.placeAt place.1)
      (s.text.placeAt place.2) := by
  obtain ⟨start, stop⟩ := place
  obtain ⟨before, tail, n, htext, ha, hb, hlength⟩ := exists_of_mem_tokensFrom h
  obtain ⟨front, c, rest, htail, hn, hc⟩ := endsInRow_of_tokenLength? hlength
  rw [Nat.zero_add] at ha
  -- The last character of the token stands right before its end, on the same row.
  have hsplit : s.text = (before ++ front) ++ c :: rest := by rw [htext, htail, List.append_assoc]
  have hstop : stop = (before ++ front).length + 1 := by
    rw [List.length_append]
    omega
  have hle : stop ≤ s.text.length := by
    rw [hsplit, List.length_append, List.length_cons]
    omega
  have hplace : s.text.placeAt stop = (s.text.rowAt (stop - 1), s.text.columnAt (stop - 1) + 1) := by
    rw [hstop, hsplit]
    exact Text.placeAt_succ hc rest
  have hlast : start ≤ stop - 1 := by omega
  rw [hplace]
  refine ⟨rfl, rfl, s.text.rowAt_le_rowAt hlast, ?_, .inl ?_⟩
  · exact s.length_lines ▸ s.text.rowAt_lt_length_lines (stop - 1)
  · rw [← hplace]
    exact (Text.cut_placeAt (by omega) hle).symm

/-- The comments that a text shows by itself are captured as they stand there. -/
theorem faithful_of_mem_tokenCaptures {s : Source} {c : Capture} (h : c ∈ tokenCaptures s) :
    c.Faithful s := by
  rw [tokenCaptures] at h
  split at h
  · rename_i language _
    obtain ⟨place, hplace, rfl⟩ := List.mem_map.mp h
    exact ⟨_, _, tokenCapture_standsAt s language hplace⟩
  · cases h

end Comment

end Marginalia
