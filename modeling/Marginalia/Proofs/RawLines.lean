import Marginalia.Proofs.LineEnds
import Marginalia.Proofs.Lines

/-!
Lines of bytes that need not be UTF-8. A byte below 0x80 is read as itself whatever stands around
it, and nothing else is read as an ASCII character. So the line ends are those among the bytes, and
each line is what the bytes between two of them are read as by themselves.
-/

namespace Marginalia

/-! ## Pieces above ASCII -/

/-- The bytes that go on lie above ASCII, and so does the character that they complete: more bits
are set than ASCII has above the last six, at the latest once the next byte has been read. -/
structure Utf8Pending.AboveAscii (p : Utf8Pending) : Prop where
  next : 0x80 ≤ p.low
  value : 2 ≤ p.value ∨ 0 < p.missing ∧ 2 ≤ p.value * 64 + (p.low - 0x80)

namespace Utf8Pending

variable {missing low high value b : Nat}

theorem AboveAscii.step (h : AboveAscii ⟨missing + 1, low, high, value⟩) (hlow : low ≤ b) :
    AboveAscii ⟨missing, 0x80, 0xBF, value * 64 + (b - 0x80)⟩ := by
  have hvalue := h.value
  refine ⟨Nat.le_refl _, .inl ?_⟩
  simp only at hvalue ⊢
  omega

theorem AboveAscii.last (h : AboveAscii ⟨0, low, high, value⟩) (b : Nat) :
    0x80 ≤ value * 64 + (b - 0x80) := by
  have hvalue := h.value
  simp only at hvalue
  omega

end Utf8Pending

namespace Utf8Piece

/-- The character that the reading puts for a piece. -/
def replaced : Utf8Piece → Char
  | char c => c
  | malformed => '\uFFFD'

/-- The piece stands for no ASCII character. -/
def AboveAscii (piece : Utf8Piece) : Prop :=
  piece = .malformed ∨ ∃ n, 0x80 ≤ n ∧ piece = .char (Char.ofNat n)

theorem toNat_ofNat_ascii {n : Nat} (h : n < 0x80) : (Char.ofNat n).toNat = n := by
  rw [Char.ofNat, dif_pos (.inl (by omega))]
  rfl

theorem ofNat_ne {c : Char} {n : Nat} (hc : 0 < c.toNat) (h : c.toNat < n) : Char.ofNat n ≠ c := by
  rintro rfl
  by_cases hvalid : n.isValidChar
  · have hvalue : (Char.ofNat n).toNat = n := by
      rw [Char.ofNat, dif_pos hvalid]
      rfl
    omega
  · rw [Char.ofNat, dif_neg hvalid] at hc
    exact absurd hc (by decide)

theorem AboveAscii.replaced_ne {piece : Utf8Piece} (h : piece.AboveAscii) {c : Char}
    (hc : 0 < c.toNat) (hascii : c.toNat < 0x80) : piece.replaced ≠ c := by
  rcases h with rfl | ⟨n, hn, rfl⟩
  · rintro rfl
    exact absurd hascii (by decide)
  · exact ofNat_ne hc (hascii.trans_le hn)

theorem aboveAscii_of_ofLead_inl {b : Nat} {piece : Utf8Piece} (hb : 0x80 ≤ b)
    (h : ofLead b = .inl piece) : piece.AboveAscii := by
  rw [ofLead, if_neg (by omega)] at h
  repeat' split at h
  all_goals cases h
  exact .inl rfl

/-- No byte begins an overlong form of an ASCII character. -/
theorem aboveAscii_of_ofLead_inr {b : Nat} {p : Utf8Pending} (h : ofLead b = .inr p) :
    p.AboveAscii := by
  simp only [ofLead, Bool.and_eq_true, decide_eq_true_eq] at h
  repeat' split at h
  all_goals cases h
  all_goals refine ⟨Nat.le_of_ble_eq_true rfl, ?_⟩
  all_goals
    simp only
    omega

end Utf8Piece

namespace Bytes

open Utf8Piece

/-! ## Reading byte by byte -/

theorem scanUtf8_ascii {b : UInt8} (hb : b.toNat < 0x80) (rest : Bytes) :
    scanUtf8 none (b :: rest) = .char (Char.ofNat b.toNat) :: scanUtf8 none rest := by
  rw [scanUtf8, ofLead_one (by omega)]

theorem scanUtf8_outside {p : Utf8Pending} {b : UInt8}
    (h : ¬ (p.low ≤ b.toNat ∧ b.toNat ≤ p.high)) (rest : Bytes) :
    scanUtf8 (some p) (b :: rest) = .malformed :: scanUtf8 none (b :: rest) := by
  conv_lhs => rw [scanUtf8, if_neg (by simpa using h)]
  rw [scanUtf8]

/-- An ASCII byte is read as itself, and the bytes on both sides of it as if each stood alone. -/
theorem scanUtf8_append_ascii {p : Option Utf8Pending} {b : UInt8}
    (hp : ∀ q ∈ p, q.AboveAscii) (hb : b.toNat < 0x80) (front back : Bytes) :
    scanUtf8 p (front ++ b :: back) =
      scanUtf8 p front ++ .char (Char.ofNat b.toNat) :: scanUtf8 none back := by
  induction front generalizing p with
  | nil =>
      cases p with
      | none => exact scanUtf8_ascii hb back
      | some q =>
          have hlow := (hp q rfl).next
          rw [List.nil_append, scanUtf8_outside (by omega), scanUtf8_ascii hb]
          rfl
  | cons c front ih =>
      have hfront := @ih none nofun
      have hfresh : scanUtf8 none (c :: (front ++ b :: back)) =
          scanUtf8 none (c :: front) ++ .char (Char.ofNat b.toNat) :: scanUtf8 none back := by
        rw [scanUtf8, scanUtf8]
        cases hlead : ofLead c.toNat with
        | inl piece => exact congrArg (piece :: ·) hfront
        | inr q => exact ih (by simpa using aboveAscii_of_ofLead_inr hlead)
      cases p with
      | none => exact hfresh
      | some q =>
          by_cases hc : q.low ≤ c.toNat ∧ c.toNat ≤ q.high
          · obtain ⟨missing, low, high, value⟩ := q
            rw [List.cons_append, scanUtf8, scanUtf8, if_pos (by simpa using hc),
              if_pos (by simpa using hc)]
            cases missing with
            | zero => simp only [hfront, List.cons_append]
            | succ missing => exact ih (by simpa using (hp _ rfl).step hc.1)
          · rw [List.cons_append, scanUtf8_outside hc, scanUtf8_outside hc, hfresh]
            rfl

/-- What has begun ends in one piece, and the bytes that this takes lie above ASCII. -/
theorem exists_scanUtf8_some {p : Utf8Pending} (hp : p.AboveAscii) (bs : Bytes) :
    ∃ taken rest piece, bs = taken ++ rest ∧ (∀ b ∈ taken, 0x80 ≤ b.toNat) ∧
      piece.AboveAscii ∧ scanUtf8 (some p) bs = piece :: scanUtf8 none rest := by
  induction bs generalizing p with
  | nil => exact ⟨[], [], .malformed, rfl, nofun, .inl rfl, rfl⟩
  | cons b bs ih =>
      obtain ⟨missing, low, high, value⟩ := p
      by_cases hb : low ≤ b.toNat ∧ b.toNat ≤ high
      · have hhigh : 0x80 ≤ b.toNat := hp.next.trans hb.1
        rw [scanUtf8, if_pos (by simpa using hb)]
        cases missing with
        | zero =>
            have hpiece : AboveAscii (.char (Char.ofNat _)) := .inr ⟨_, hp.last b.toNat, rfl⟩
            exact ⟨[b], bs, _, rfl, List.forall_mem_singleton.mpr hhigh, hpiece, rfl⟩
        | succ missing =>
            obtain ⟨taken, rest, piece, rfl, htaken, hpiece, hscan⟩ := ih (hp.step hb.1)
            exact ⟨b :: taken, rest, piece, rfl, List.forall_mem_cons.mpr ⟨hhigh, htaken⟩, hpiece,
              hscan⟩
      · exact ⟨[], b :: bs, .malformed, rfl, nofun, .inl rfl, scanUtf8_outside hb bs⟩

/-- The bytes and their pieces: an ASCII byte has a piece of its own, and the bytes between two of
them have pieces that stand for no ASCII character. -/
inductive ReadAs : Bytes → List Utf8Piece → Prop where
  | nil : ReadAs [] []
  | ascii {b : UInt8} {rest : Bytes} {pieces : List Utf8Piece} : b.toNat < 0x80 →
      ReadAs rest pieces → ReadAs (b :: rest) (.char (Char.ofNat b.toNat) :: pieces)
  | above {b : UInt8} {taken rest : Bytes} {piece : Utf8Piece} {pieces : List Utf8Piece} :
      (∀ c ∈ b :: taken, 0x80 ≤ c.toNat) → piece.AboveAscii → ReadAs rest pieces →
      ReadAs (b :: (taken ++ rest)) (piece :: pieces)

theorem readAs_utf8Pieces (bs : Bytes) : ReadAs bs bs.utf8Pieces := by
  induction hlength : bs.length using Nat.strong_induction_on generalizing bs with
  | _ n ih =>
      subst hlength
      cases bs with
      | nil => exact .nil
      | cons b bs =>
          have hrest := ih bs.length (Nat.lt_succ_self _) bs rfl
          by_cases hb : b.toNat < 0x80
          · rw [utf8Pieces, scanUtf8_ascii hb]
            exact .ascii hb hrest
          · have hhigh : 0x80 ≤ b.toNat := Nat.not_lt.mp hb
            rw [utf8Pieces, scanUtf8]
            cases hlead : ofLead b.toNat with
            | inl piece =>
                exact .above (List.forall_mem_singleton.mpr hhigh)
                  (aboveAscii_of_ofLead_inl hhigh hlead) hrest
            | inr p =>
                obtain ⟨taken, rest, piece, rfl, htaken, hpiece, hscan⟩ :=
                  exists_scanUtf8_some (aboveAscii_of_ofLead_inr hlead) bs
                have hshort : rest.length < (b :: (taken ++ rest)).length := by
                  simp only [List.length_cons, List.length_append]
                  omega
                simp only [hscan]
                exact .above (List.forall_mem_cons.mpr ⟨hhigh, htaken⟩) hpiece
                  (ih _ hshort rest rfl)

theorem decodeReplacing_eq (bs : Bytes) :
    bs.decodeReplacing = bs.utf8Pieces.map replaced := by
  rw [decodeReplacing]
  apply List.map_congr_left
  intro piece _
  cases piece <;> rfl

theorem decodeReplacing_append_ascii {b : UInt8} (hb : b.toNat < 0x80) (front back : Bytes) :
    decodeReplacing (front ++ b :: back) =
      decodeReplacing front ++ Char.ofNat b.toNat :: decodeReplacing back := by
  rw [decodeReplacing, utf8Pieces, scanUtf8_append_ascii (p := none) (by simp) hb,
    List.map_append]
  rfl

section

variable {c : Char} {bs : Bytes} (hc : 0 < c.toNat) (hascii : c.toNat < 0x80)
include hc hascii

theorem exists_of_mem_decodeReplacing (h : c ∈ bs.decodeReplacing) :
    ∃ b ∈ bs, b.toNat = c.toNat := by
  rw [decodeReplacing_eq] at h
  have hread := readAs_utf8Pieces bs
  generalize bs.utf8Pieces = pieces at h hread
  induction hread with
  | nil => cases h
  | ascii hb _ ih =>
      rcases List.mem_cons.mp h with rfl | h
      · exact ⟨_, List.mem_cons_self, (toNat_ofNat_ascii hb).symm⟩
      · obtain ⟨b, hmem, hvalue⟩ := ih h
        exact ⟨b, List.mem_cons_of_mem _ hmem, hvalue⟩
  | above _ hpiece _ ih =>
      rcases List.mem_cons.mp h with h | h
      · exact absurd h.symm (hpiece.replaced_ne hc hascii)
      · obtain ⟨b, hmem, hvalue⟩ := ih h
        exact ⟨b, List.mem_cons_of_mem _ (List.mem_append_right _ hmem), hvalue⟩

theorem exists_of_head?_decodeReplacing (h : bs.decodeReplacing.head? = some c) :
    ∃ b, bs.head? = some b ∧ b.toNat = c.toNat := by
  rw [decodeReplacing_eq] at h
  have hread := readAs_utf8Pieces bs
  generalize bs.utf8Pieces = pieces at h hread
  cases hread with
  | nil => cases h
  | ascii hb =>
      cases h
      exact ⟨_, rfl, (toNat_ofNat_ascii hb).symm⟩
  | above _ hpiece => exact absurd (Option.some.inj h) (hpiece.replaced_ne hc hascii)

end

/-! ## Line ends among bytes -/

/-- The byte is the last one of a line end: a line feed, or a carriage return with no line feed
behind it. -/
def endsLine (b : UInt8) (rest : Bytes) : Bool := b == 10 || (b == 13 && rest.head? != some 10)

/-- The number of line ends, which are line feeds, carriage returns, and pairs of both. -/
def lineEnds : Bytes → Nat
  | [] => 0
  | b :: rest => lineEnds rest + if endsLine b rest then 1 else 0

/-- The stretches between the line ends. -/
def rows : Bytes → List Bytes
  | [] => [[]]
  | b :: rest =>
    if endsLine b rest then [] :: rows rest
    else if b = 13 then rows rest
    else Sequence.mapFirst (b :: ·) (rows rest)

/-- No byte belongs to a line end. -/
def Unbroken (row : Bytes) : Prop := ∀ b ∈ row, b ≠ 10 ∧ b ≠ 13

theorem length_rows (bs : Bytes) : bs.rows.length = bs.lineEnds + 1 := by
  induction bs with
  | nil => rfl
  | cons b rest ih =>
      rw [rows, lineEnds]
      split
      · rw [List.length_cons, ih]
      · split
        · exact ih
        · rw [Sequence.length_mapFirst, ih]

end Bytes

namespace LineEnd

def bytes (e : LineEnd) : Bytes := e.text.encode

theorem length_bytes_pos (e : LineEnd) : 0 < e.bytes.length := by
  cases e <;> decide

/-- The line end does not go into one with the bytes behind it. -/
def EndsBefore (e : LineEnd) (rest : Bytes) : Prop :=
  e = .carriageReturn → rest.head? ≠ some 10

end LineEnd

namespace Bytes

variable {row rest : Bytes} {e : LineEnd}

theorem exists_lineEnd (bs : Bytes) : Unbroken bs ∨ ∃ row e rest, Unbroken row ∧
    LineEnd.EndsBefore e rest ∧ bs = row ++ (e.bytes ++ rest) := by
  induction bs with
  | nil => exact .inl nofun
  | cons b bs ih =>
      by_cases hfeed : b = 10
      · subst hfeed
        exact .inr ⟨[], .feed, bs, nofun, nofun, rfl⟩
      by_cases hreturn : b = 13
      · subst hreturn
        by_cases hnext : bs.head? = some 10
        · obtain ⟨rest, rfl⟩ := List.head?_eq_some_iff.mp hnext
          exact .inr ⟨[], .pair, rest, nofun, nofun, rfl⟩
        · exact .inr ⟨[], .carriageReturn, bs, nofun, fun _ => hnext, rfl⟩
      rcases ih with hrow | ⟨row, e, rest, hrow, hends, rfl⟩
      · exact .inl (List.forall_mem_cons.mpr ⟨⟨hfeed, hreturn⟩, hrow⟩)
      · have hcons : Unbroken (b :: row) := List.forall_mem_cons.mpr ⟨⟨hfeed, hreturn⟩, hrow⟩
        exact .inr ⟨b :: row, e, rest, hcons, hends, rfl⟩

theorem rows_append (h : Unbroken row) (bs : Bytes) :
    rows (row ++ bs) = Sequence.mapFirst (row ++ ·) bs.rows := by
  induction row with
  | nil => cases hrows : bs.rows <;> simp [hrows, Sequence.mapFirst]
  | cons b row ih =>
      obtain ⟨⟨hfeed, hreturn⟩, hrow⟩ := List.forall_mem_cons.mp h
      rw [List.cons_append, rows, if_neg (by simp [endsLine, hfeed, hreturn]), if_neg hreturn,
        ih hrow, Sequence.mapFirst_mapFirst]
      rfl

theorem rows_of_unbroken (h : Unbroken row) : row.rows = [row] := by
  have happend := rows_append h []
  rwa [List.append_nil, rows, Sequence.mapFirst, List.append_nil] at happend

theorem rows_lineEnd (h : e.EndsBefore rest) : rows (e.bytes ++ rest) = [] :: rest.rows := by
  cases e with
  | feed => rfl
  | pair => rfl
  | carriageReturn =>
      have hends : endsLine 13 rest = true := by simpa [endsLine] using h rfl
      change rows (13 :: rest) = _
      rw [rows, if_pos hends]

/-! ## Lines of what is read -/

theorem decodeReplacing_lineEnd (e : LineEnd) (front back : Bytes) :
    decodeReplacing (front ++ (e.bytes ++ back)) =
      decodeReplacing front ++ (e.text ++ decodeReplacing back) := by
  have hfeed : ∀ front back, decodeReplacing (front ++ 10 :: back) =
      decodeReplacing front ++ '\n' :: decodeReplacing back :=
    decodeReplacing_append_ascii (by decide)
  have hreturn : ∀ front back, decodeReplacing (front ++ 13 :: back) =
      decodeReplacing front ++ '\r' :: decodeReplacing back :=
    decodeReplacing_append_ascii (by decide)
  cases e with
  | feed => exact hfeed front back
  | carriageReturn => exact hreturn front back
  | pair =>
      have hboth : decodeReplacing (10 :: back) = '\n' :: decodeReplacing back := hfeed [] back
      exact (hreturn front (10 :: back)).trans (by rw [hboth]; rfl)

theorem not_mem_decodeReplacing (h : Unbroken row) :
    '\n' ∉ row.decodeReplacing ∧ '\r' ∉ row.decodeReplacing := by
  constructor
  · intro hmem
    obtain ⟨b, hb, hvalue⟩ := exists_of_mem_decodeReplacing (by decide) (by decide) hmem
    exact (h b hb).1 (UInt8.toNat_inj.mp hvalue)
  · intro hmem
    obtain ⟨b, hb, hvalue⟩ := exists_of_mem_decodeReplacing (by decide) (by decide) hmem
    exact (h b hb).2 (UInt8.toNat_inj.mp hvalue)

theorem head?_decodeReplacing_ne (h : rest.head? ≠ some 10) :
    rest.decodeReplacing.head? ≠ some '\n' := by
  intro hhead
  obtain ⟨b, hb, hvalue⟩ := exists_of_head?_decodeReplacing (by decide) (by decide) hhead
  rw [show b = 10 from UInt8.toNat_inj.mp hvalue] at hb
  exact h hb

end Bytes

namespace Text

theorem unifyLineEnds_append {t : Text} (h : '\r' ∉ t) (u : Text) :
    unifyLineEnds (t ++ u) = t ++ unifyLineEnds u := by
  induction t with
  | nil => rfl
  | cons c t ih =>
      simp only [List.mem_cons, not_or] at h
      rw [List.cons_append, unifyLineEnds_cons (Ne.symm h.1), ih h.2, List.cons_append]

theorem unifyLineEnds_lineEnd {e : LineEnd} {u : Text}
    (h : e = .carriageReturn → u.head? ≠ some '\n') :
    unifyLineEnds (e.text ++ u) = '\n' :: unifyLineEnds u := by
  cases e with
  | feed => exact unifyLineEnds_cons (by decide) u
  | carriageReturn => exact unifyLineEnds_return (h rfl)
  | pair => exact unifyLineEnds_pair u

/-- The text without a mark of the byte order in front, if there is one. -/
def dropMark (t : Text) : Text := t.drop (min 1 t.markCount)

theorem dropMark_mark (t : Text) : dropMark (byteOrderMark :: t) = t := by
  rw [dropMark, markCount_cons_mark, Nat.min_eq_left (Nat.le_add_left 1 _), List.drop_one,
    List.tail_cons]

theorem dropMark_of_head?_ne {t : Text} (h : t.head? ≠ some byteOrderMark) : dropMark t = t := by
  rw [dropMark, markCount_of_head?_ne h, Nat.min_zero, List.drop_zero]

theorem normalize_eq_dropMark (t : Text) : t.normalize = dropMark (unifyLineEnds t) := by
  rw [normalize_eq, dropMark, markCount_unifyLineEnds, drop_unifyLineEnds (Nat.min_le_right _ _)]

theorem lines_dropMark (t : Text) : (dropMark t).lines = Sequence.mapFirst dropMark t.lines := by
  cases t with
  | nil => rfl
  | cons c t =>
      obtain ⟨first, rows, ht⟩ := List.exists_cons_of_ne_nil (lines_ne_nil t)
      by_cases hmark : c = byteOrderMark
      · rw [hmark, dropMark_mark, lines_cons_of_ne (by decide), ht, Sequence.mapFirst,
          Sequence.mapFirst, dropMark_mark]
      · rw [dropMark_of_head?_ne (by simpa using hmark)]
        by_cases hnewline : c = '\n'
        · rw [hnewline]
          rfl
        · rw [lines_cons_of_ne hnewline, ht, Sequence.mapFirst, Sequence.mapFirst,
            dropMark_of_head?_ne (by simpa using hmark)]

end Text

namespace Bytes

/-- Each line of what is read is what the bytes between two line ends are read as. -/
theorem lines_unifyLineEnds_decodeReplacing (bs : Bytes) :
    (Text.unifyLineEnds bs.decodeReplacing).lines = bs.rows.map decodeReplacing := by
  induction hlength : bs.length using Nat.strong_induction_on generalizing bs with
  | _ n ih =>
      subst hlength
      rcases exists_lineEnd bs with hrow | ⟨row, e, rest, hrow, hends, rfl⟩
      · obtain ⟨hfeed, hreturn⟩ := not_mem_decodeReplacing hrow
        rw [Text.unifyLineEnds_of_not_mem hreturn, Text.lines_eq_singleton hfeed,
          rows_of_unbroken hrow, List.map_singleton]
      · obtain ⟨hfeed, hreturn⟩ := not_mem_decodeReplacing hrow
        have hshort : rest.length < (row ++ (e.bytes ++ rest)).length := by
          have hpos := e.length_bytes_pos
          simp only [List.length_append]
          omega
        have hapart : e = .carriageReturn → rest.decodeReplacing.head? ≠ some '\n' :=
          fun he => head?_decodeReplacing_ne (hends he)
        rw [decodeReplacing_lineEnd, Text.unifyLineEnds_append hreturn,
          Text.unifyLineEnds_lineEnd hapart, Text.lines_append_newline,
          Text.lines_eq_singleton hfeed, ih _ hshort rest rfl, rows_append hrow, rows_lineEnd hends,
          Sequence.mapFirst, List.append_nil]
        rfl

end Bytes

namespace Files

variable {files : Files} {p : Path} {language : Option Text} {l : Language} {bytes : Bytes}

/-- The lines of a source are those of its bytes, however much of these is no UTF-8. There is one
more than line ends among the bytes, and each is what its bytes are read as by themselves, but for
a mark of the byte order in front of the first. -/
theorem exists_readSource_lines (hl : Language.resolve language (some p) = .ok l)
    (hread : files.tree.read (files.base.join p) = .ok bytes) :
    ∃ s, files.readSource p language = .ok s ∧ s.lineCount = bytes.lineEnds + 1 ∧
      s.lines = Sequence.mapFirst Text.dropMark (bytes.rows.map Bytes.decodeReplacing) := by
  have hlines : (textOf bytes).lines =
      Sequence.mapFirst Text.dropMark (bytes.rows.map Bytes.decodeReplacing) := by
    rw [textOf, Text.normalize_eq_dropMark, Text.lines_dropMark,
      Bytes.lines_unifyLineEnds_decodeReplacing]
  refine ⟨_, readSource_of_read hread hl, ?_, hlines⟩
  change (textOf bytes).count '\n' + 1 = _
  rw [← Text.length_lines, hlines, Sequence.length_mapFirst, List.length_map, Bytes.length_rows]

/-- A mark of the byte order, a character broken off before a pair, an overlong line feed before a
carriage return, a surrogate before a line feed, and a character broken off at the end. -/
def brokenBytes : Bytes :=
  [0xEF, 0xBB, 0xBF, 0x23, 0xE2, 0x82, 0x0D, 0x0A, 0xC0, 0x8A, 0x0D, 0xED, 0xA0, 0x80, 0x0A, 0xF0,
    0x9F]

def broken : Files := ⟨.directory [("a.py", .file brokenBytes)], .root⟩

def brokenPath : Path := ⟨false, ["a.py"]⟩

theorem exists_readSource_lines_broken :
    Language.resolve none (some brokenPath) = .ok .python ∧
    broken.tree.read (broken.base.join brokenPath) = .ok brokenBytes ∧
    ∃ s, broken.readSource brokenPath none = .ok s ∧ s.lineCount = 4 ∧
      s.lines = ["#\uFFFD", "\uFFFD\uFFFD", "\uFFFD\uFFFD\uFFFD", "\uFFFD"].map String.toList := by
  have hl : Language.resolve none (some brokenPath) = .ok .python := rfl
  have hread : broken.tree.read (broken.base.join brokenPath) = .ok brokenBytes := rfl
  obtain ⟨s, hs, hcount, hlines⟩ := exists_readSource_lines hl hread
  refine ⟨hl, hread, s, hs, hcount.trans (by decide), hlines.trans ?_⟩
  decide

end Files

end Marginalia
