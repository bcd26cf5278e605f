import Marginalia.Extraction.Files
import Marginalia.Proofs.Normalization
import Marginalia.Proofs.Utf8
import Marginalia.Proofs.Writability

/-!
Files in which a text is kept with line ends of several kinds. Reading gives the text back, unless a
carriage return that ends one line stands in front of a line feed that ends the next: these two are
read as one line end.
-/

namespace Marginalia

/-- The ways to write the end of a line. -/
inductive LineEnd where
  | feed
  | carriageReturn
  | pair
  deriving DecidableEq, Repr

def LineEnd.text : LineEnd → Text
  | feed => ['\n']
  | carriageReturn => ['\r']
  | pair => ['\r', '\n']

namespace Text

variable {ends : Nat → LineEnd} {t : Text} {c : Char}

/-- The text with its line ends written as `ends` tells of each of them in turn. -/
def writeEnds (ends : Nat → LineEnd) : Text → Text
  | [] => []
  | c :: t =>
    if c = '\n' then (ends 0).text ++ writeEnds (fun n => ends (n + 1)) t
    else c :: writeEnds ends t

/-- No line end that is written as a carriage return is right in front of one that is written as a
line feed. -/
def EndsApart (ends : Nat → LineEnd) (t : Text) : Prop :=
  ∀ front back, t = front ++ '\n' :: '\n' :: back →
    ¬ (ends (front.count '\n') = .carriageReturn ∧ ends (front.count '\n' + 1) = .feed)

/-- The bytes in which the text is kept, behind a mark of the byte order or without one. -/
def stored (marked : Bool) (ends : Nat → LineEnd) (t : Text) : Bytes :=
  encode ((if marked then [byteOrderMark] else []) ++ t.writeEnds ends)

/-! ## Line ends side by side -/

theorem endsApart_nil (ends : Nat → LineEnd) : EndsApart ends [] := by
  intro front back h
  simp at h

theorem endsApart_cons_of_ne (hc : c ≠ '\n') : EndsApart ends (c :: t) ↔ EndsApart ends t := by
  constructor
  · intro h front back ht
    simpa [hc] using h (c :: front) back (by rw [ht]; rfl)
  · intro h front back ht
    cases front with
    | nil =>
        cases ht
        exact absurd rfl hc
    | cons d front =>
        cases ht
        simpa [hc] using h front back rfl

theorem endsApart_newline : EndsApart ends ('\n' :: t) ↔
    ¬ (t.head? = some '\n' ∧ ends 0 = .carriageReturn ∧ ends 1 = .feed) ∧
      EndsApart (fun n => ends (n + 1)) t := by
  constructor
  · intro h
    refine ⟨?_, fun front back ht => ?_⟩
    · rintro ⟨hhead, hends⟩
      obtain ⟨rest, rfl⟩ := List.head?_eq_some_iff.mp hhead
      exact h [] rest rfl hends
    · simpa using h ('\n' :: front) back (by rw [ht]; rfl)
  · rintro ⟨hfirst, hrest⟩ front back ht
    cases front with
    | nil =>
        cases ht
        exact fun hends => hfirst ⟨rfl, hends⟩
    | cons d front =>
        cases ht
        simpa using hrest front back rfl

/-! ## Reading what was written -/

theorem unifyLineEnds_return_cons (t : Text) : unifyLineEnds ('\r' :: t) =
    if t.head? = some '\n' then unifyLineEnds t else '\n' :: unifyLineEnds t := by
  split
  · rename_i h
    obtain ⟨rest, rfl⟩ := List.head?_eq_some_iff.mp h
    rw [unifyLineEnds_pair, unifyLineEnds_cons (by decide)]
  · rename_i h
    exact unifyLineEnds_return h

theorem head?_writeEnds_eq_newline_iff :
    (t.writeEnds ends).head? = some '\n' ↔ t.head? = some '\n' ∧ ends 0 = .feed := by
  cases t with
  | nil => simp [writeEnds]
  | cons c t =>
      by_cases hc : c = '\n'
      · cases hends : ends 0 <;> simp [writeEnds, hc, hends, LineEnd.text]
      · simp [writeEnds, hc]

/-- A line end that is written at the front is read again, unless it goes into the next one. -/
theorem unifyLineEnds_writeEnds_newline (ends : Nat → LineEnd) (t : Text) :
    unifyLineEnds (writeEnds ends ('\n' :: t)) =
      if t.head? = some '\n' ∧ ends 0 = .carriageReturn ∧ ends 1 = .feed
      then unifyLineEnds (writeEnds (fun n => ends (n + 1)) t)
      else '\n' :: unifyLineEnds (writeEnds (fun n => ends (n + 1)) t) := by
  rw [writeEnds, if_pos rfl]
  cases hends : ends 0 with
  | feed => simp [LineEnd.text, unifyLineEnds_cons]
  | pair => simp [LineEnd.text, unifyLineEnds_pair]
  | carriageReturn =>
      simp [LineEnd.text, unifyLineEnds_return_cons, head?_writeEnds_eq_newline_iff]

theorem unifyLineEnds_writeEnds_cons (hc : c ≠ '\n') (hr : c ≠ '\r') (t : Text) :
    unifyLineEnds (writeEnds ends (c :: t)) = c :: unifyLineEnds (writeEnds ends t) := by
  rw [writeEnds, if_neg hc, unifyLineEnds_cons hr]

theorem length_unifyLineEnds_writeEnds_le (h : '\r' ∉ t) :
    (unifyLineEnds (t.writeEnds ends)).length ≤ t.length := by
  induction t generalizing ends with
  | nil => exact Nat.le_refl 0
  | cons c t ih =>
      simp only [List.mem_cons, not_or] at h
      by_cases hc : c = '\n'
      · rw [hc, unifyLineEnds_writeEnds_newline]
        have hrest := @ih (fun n => ends (n + 1)) h.2
        split <;> simp only [List.length_cons] <;> omega
      · rw [unifyLineEnds_writeEnds_cons hc (Ne.symm h.1)]
        exact Nat.succ_le_succ (ih h.2)

/-- What was written is read again just if no two line ends go into one. -/
theorem unifyLineEnds_writeEnds_iff (h : '\r' ∉ t) :
    unifyLineEnds (t.writeEnds ends) = t ↔ EndsApart ends t := by
  induction t generalizing ends with
  | nil => simp [writeEnds, unifyLineEnds, endsApart_nil]
  | cons c t ih =>
      simp only [List.mem_cons, not_or] at h
      by_cases hc : c = '\n'
      · subst hc
        rw [unifyLineEnds_writeEnds_newline, endsApart_newline, ← ih h.2]
        split
        · rename_i hmerged
          -- One line end is missing, so what is read is too short.
          have hshort := @length_unifyLineEnds_writeEnds_le (fun n => ends (n + 1)) t h.2
          refine iff_of_false (fun heq => ?_) fun hapart => hapart.1 hmerged
          rw [heq, List.length_cons] at hshort
          omega
        · rename_i hapart
          rw [List.cons_inj_right, and_iff_right hapart]
      · rw [unifyLineEnds_writeEnds_cons hc (Ne.symm h.1), List.cons_inj_right, ih h.2,
          endsApart_cons_of_ne hc]

theorem head?_writeEnds_ne_mark (h : t.head? ≠ some byteOrderMark) :
    (t.writeEnds ends).head? ≠ some byteOrderMark := by
  cases t with
  | nil => exact h
  | cons c t =>
      by_cases hc : c = '\n'
      · cases hends : ends 0 <;> simp [writeEnds, hc, hends, LineEnd.text, byteOrderMark]
      · simpa [writeEnds, hc] using h

end Text

namespace Files

variable {t : Text}

theorem textOf_stored (hmark : t.head? ≠ some Text.byteOrderMark) (marked : Bool)
    (ends : Nat → LineEnd) :
    textOf (t.stored marked ends) = Text.unifyLineEnds (t.writeEnds ends) := by
  rw [textOf, Text.stored, Bytes.decodeReplacing_encode]
  cases marked with
  | true => exact Text.normalize_mark _
  | false => exact Text.normalize_of_head?_ne (Text.head?_writeEnds_ne_mark hmark)

theorem textOf_stored_iff (hreturn : '\r' ∉ t) (hmark : t.head? ≠ some Text.byteOrderMark)
    (marked : Bool) (ends : Nat → LineEnd) :
    textOf (t.stored marked ends) = t ↔ t.EndsApart ends := by
  rw [textOf_stored hmark, Text.unifyLineEnds_writeEnds_iff hreturn]

/-! ## Sources -/

variable {files : Files} {p : Path} {language : Option Text} {l : Language} {bytes : Bytes}

theorem readSource_of_read (hread : files.tree.read (files.base.join p) = .ok bytes)
    (hl : Language.resolve language (some p) = .ok l) :
    files.readSource p language = .ok ⟨(files.resolve p).toText, l.name, textOf bytes⟩ := by
  rw [readSource, hl, hread]
  rfl

theorem readSource_of_error {e : LanguageError}
    (hl : Language.resolve language (some p) = .error e) :
    files.readSource p language = .error (.language e) := by
  rw [readSource, hl]
  rfl

theorem exists_language_of_isSupported (h : Language.isSupported p = true) :
    ∃ l, Language.resolve none (some p) = .ok l := by
  obtain ⟨l, hl⟩ := Option.isSome_iff_exists.mp h
  refine ⟨l, ?_⟩
  change Language.ofPath p = .ok l
  rw [Language.ofPath, hl]

/-- The records of a file depend on its text, and on where paths lead. -/
theorem extractFile_congr {files' : Files} (hresolve : ∀ q, files'.resolve q = files.resolve q)
    (hsource : files'.readSource p language = files.readSource p language) (grammar : Grammar)
    (settings : Settings) (root : Option Path) :
    files'.extractFile grammar settings p root language =
      files.extractFile grammar settings p root language := by
  have hrelative : ∀ path, files'.relativePath path root = files.relativePath path root := by
    intro path
    simp only [relativePath, hresolve]
  simp only [extractFile, hsource, hrelative]

/-- A file in which other bytes with the same text are written gives the same records. -/
theorem exists_write_extractFile {bytes' : Bytes}
    (hread : files.tree.read (files.base.join p) = .ok bytes)
    (htext : textOf bytes' = textOf bytes) :
    ∃ tree, files.tree.write (files.base.join p) bytes' = .ok tree ∧
      ∀ grammar settings root language,
        ({ files with tree } : Files).extractFile grammar settings p root language =
          files.extractFile grammar settings p root language := by
  obtain ⟨reached, hlocate⟩ := FileTree.exists_locate_of_read hread
  obtain ⟨tree, hwrite⟩ : ∃ tree, files.tree.write (files.base.join p) bytes' = .ok tree :=
    FileTree.exists_write_iff.mpr ⟨_, hlocate, fun es hes => by cases hes⟩
  refine ⟨tree, hwrite, fun grammar settings root language => ?_⟩
  have hresolve : ∀ q, ({ files with tree } : Files).resolve q = files.resolve q :=
    (FileTree.sameLinks_write hwrite).resolve_eq files.base
  apply extractFile_congr hresolve
  cases hl : Language.resolve language (some p) with
  | error e => rw [readSource_of_error hl, readSource_of_error hl]
  | ok l =>
      have hread' : tree.read (files.base.join p) = .ok bytes' := FileTree.read_of_write hwrite
      have hsource : ({ files with tree } : Files).readSource p language = .ok _ :=
        readSource_of_read hread' hl
      rw [hsource, readSource_of_read hread hl, hresolve, htext]

/-- A file in which a text is kept is read as that text just if no two of its line ends go into one,
whatever the line ends and with or without a mark in front. Written anew with other line ends it
gives the same records. -/
theorem readSource_stored_iff (files : Files) {p : Path} {t : Text}
    (hsupported : Language.isSupported p = true) (hreturn : '\r' ∉ t)
    (hmark : t.head? ≠ some Text.byteOrderMark) :
    (∃ l, Language.resolve none (some p) = .ok l) ∧
    ∀ marked ends, files.tree.read (files.base.join p) = .ok (t.stored marked ends) →
      (∀ language l, Language.resolve language (some p) = .ok l →
        (files.readSource p language = .ok ⟨(files.resolve p).toText, l.name, t⟩ ↔
          t.EndsApart ends)) ∧
      ∀ marked' ends', t.EndsApart ends → t.EndsApart ends' →
        ∃ tree, files.tree.write (files.base.join p) (t.stored marked' ends') = .ok tree ∧
          ∀ grammar settings root language,
            ({ files with tree } : Files).extractFile grammar settings p root language =
              files.extractFile grammar settings p root language := by
  refine ⟨exists_language_of_isSupported hsupported, fun marked ends hread => ⟨?_, ?_⟩⟩
  · intro language l hl
    rw [readSource_of_read hread hl, ← textOf_stored_iff hreturn hmark marked]
    simp
  · intro marked' ends' hapart hapart'
    apply exists_write_extractFile hread
    rw [(textOf_stored_iff hreturn hmark marked ends).mpr hapart,
      (textOf_stored_iff hreturn hmark marked' ends').mpr hapart']

/-- All three line ends and a mark: the second line end is a carriage return in front of a pair. -/
def mixedText : Text := "# a\n\n\nx\n"

def mixedEnds : Nat → LineEnd
  | 0 => .carriageReturn
  | 1 => .pair
  | 2 => .feed
  | _ => .carriageReturn

def mixedPath : Path := ⟨false, ["a.py"]⟩

def mixed : Files := ⟨.directory [("a.py", .file (mixedText.stored true mixedEnds))], .root⟩

theorem mixedText_endsApart : mixedText.EndsApart mixedEnds := by
  have ht : mixedText = ['#', ' ', 'a', '\n', '\n', '\n', 'x', '\n'] := rfl
  simp [ht, Text.endsApart_cons_of_ne, Text.endsApart_newline, Text.endsApart_nil, mixedEnds]

theorem readSource_stored_iff_mixed :
    Language.isSupported mixedPath = true ∧ '\r' ∉ mixedText ∧
    mixedText.head? ≠ some Text.byteOrderMark ∧
    mixed.tree.read (mixed.base.join mixedPath) = .ok (mixedText.stored true mixedEnds) ∧
    mixed.readSource mixedPath none =
      .ok ⟨(mixed.resolve mixedPath).toText, Language.python.name, mixedText⟩ ∧
    ∃ tree, mixed.tree.write (mixed.base.join mixedPath)
        (mixedText.stored false fun _ => .pair) = .ok tree ∧
      ∀ grammar settings root language,
        ({ mixed with tree } : Files).extractFile grammar settings mixedPath root language =
          mixed.extractFile grammar settings mixedPath root language := by
  have hsupported : Language.isSupported mixedPath = true := by decide
  have hreturn : '\r' ∉ mixedText := by decide
  have hmark : mixedText.head? ≠ some Text.byteOrderMark := by decide
  have hread : mixed.tree.read (mixed.base.join mixedPath) =
      .ok (mixedText.stored true mixedEnds) := rfl
  have hpairs : mixedText.EndsApart fun _ => .pair := fun _ _ _ h => nomatch h.1
  obtain ⟨-, hstored⟩ := readSource_stored_iff mixed hsupported hreturn hmark
  obtain ⟨hsource, hagain⟩ := hstored true mixedEnds hread
  exact ⟨hsupported, hreturn, hmark, hread,
    (hsource none .python rfl).mpr mixedText_endsApart,
    hagain false (fun _ => .pair) mixedText_endsApart hpairs⟩

end Files

end Marginalia
