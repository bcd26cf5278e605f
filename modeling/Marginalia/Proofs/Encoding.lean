import Marginalia.Proofs.Lines
import Marginalia.Proofs.Utf8

/-!
Encoded texts cut in bytes. A cut between two characters is the same cut in bytes, a line feed is
the one byte that it is, and so the rows of the bytes are the encoded rows.
-/

namespace Marginalia.Text

variable {t : Text} {start stop : Nat}

/-! ## Lengths -/

theorem encode_append (t u : Text) : encode (t ++ u) = t.encode ++ u.encode := List.flatMap_append

theorem length_encode (t : Text) : t.encode.length = t.utf8Length := by
  induction t with
  | nil => rfl
  | cons c t ih =>
      rw [encode, List.flatMap_cons, List.length_append, String.length_utf8EncodeChar]
      exact congrArg (c.utf8Size + ·) ih

theorem utf8Length_reverse (t : Text) : utf8Length t.reverse = t.utf8Length := by
  induction t with
  | nil => rfl
  | cons c t ih =>
      rw [List.reverse_cons, utf8Length_append, ih, utf8Length_cons, Nat.add_comm]
      rfl

theorem utf8Length_take_lt (h : start < stop) (hs : stop ≤ t.length) :
    utf8Length (t.take start) < utf8Length (t.take stop) := by
  obtain ⟨n, rfl⟩ := Nat.exists_eq_add_of_lt h
  have hlt : start < t.length := by omega
  have hcons : (t.drop start).take (n + 1) = t[start] :: (t.drop (start + 1)).take n := by
    rw [List.drop_eq_getElem_cons hlt, List.take_succ_cons]
  rw [Nat.add_assoc, List.take_add, utf8Length_append, hcons, utf8Length_cons]
  have hpos := t[start].utf8Size_pos
  omega

theorem utf8Length_take_inj (hstart : start ≤ t.length) (hstop : stop ≤ t.length)
    (h : utf8Length (t.take start) = utf8Length (t.take stop)) : start = stop := by
  rcases Nat.lt_trichotomy start stop with hlt | heq | hgt
  · exact absurd h (Nat.ne_of_lt (utf8Length_take_lt hlt hstop))
  · exact heq
  · exact absurd h (Nat.ne_of_gt (utf8Length_take_lt hgt hstart))

theorem le_of_utf8Length_take_le (hstart : start ≤ t.length)
    (h : utf8Length (t.take start) ≤ utf8Length (t.take stop)) : start ≤ stop := by
  by_contra hlt
  exact absurd h (Nat.not_le.mpr (utf8Length_take_lt (Nat.not_le.mp hlt) hstart))

/-! ## Cuts -/

theorem take_encode (t : Text) (n : Nat) :
    t.encode.take (utf8Length (t.take n)) = encode (t.take n) := by
  have hsplit : t.encode = encode (t.take n) ++ encode (t.drop n) := by
    rw [← encode_append, List.take_append_drop]
  rw [hsplit, List.take_left' (length_encode _)]

theorem drop_encode (t : Text) (n : Nat) :
    t.encode.drop (utf8Length (t.take n)) = encode (t.drop n) := by
  have hsplit : t.encode = encode (t.take n) ++ encode (t.drop n) := by
    rw [← encode_append, List.take_append_drop]
  rw [hsplit, List.drop_left' (length_encode _)]

theorem slice_encode (h : start ≤ stop) :
    Sequence.slice t.encode (utf8Length (t.take start)) (utf8Length (t.take stop)) =
      encode (Sequence.slice t start stop) := by
  have htake : t.take start = (t.take stop).take start := by
    rw [List.take_take, Nat.min_eq_left h]
  rw [Sequence.slice, take_encode, htake, drop_encode]
  rfl

/-! ## Rows -/

/-- A line feed is the only character with its byte. -/
theorem eq_newline_of_mem {c : Char} (h : (10 : UInt8) ∈ String.utf8EncodeChar c) : c = '\n' := by
  have hbyte : ∀ m < 256, (10 : UInt8) = UInt8.ofNat m → m = 10 := by
    intro m hm he
    rw [← Bytes.toNat_ofNat_of_lt hm, ← he]
    rfl
  have hvalue : c.toNat = 10 := by
    have hvalid : c.toNat < 0xD800 ∨ 0xDFFF < c.toNat ∧ c.toNat < 0x110000 := c.valid
    simp only [String.utf8EncodeChar, show c.val.toNat = c.toNat from rfl] at h
    generalize c.toNat = n at h hvalid
    -- All bytes of a longer encoding are at least 0x80.
    split at h
    · exact hbyte n (by omega) (List.mem_singleton.mp h)
    · split at h
      · simp only [List.mem_cons, List.not_mem_nil, or_false] at h
        rcases h with h | h <;> have hsame := hbyte _ (by omega) h <;> omega
      · split at h
        · simp only [List.mem_cons, List.not_mem_nil, or_false] at h
          rcases h with h | h | h <;> have hsame := hbyte _ (by omega) h <;> omega
        · simp only [List.mem_cons, List.not_mem_nil, or_false] at h
          rcases h with h | h | h | h <;> have hsame := hbyte _ (by omega) h <;> omega
  rw [← Char.ofNat_toNat c, hvalue]

theorem split_encode (t : Text) : Sequence.split 10 t.encode = t.lines.map encode := by
  induction t with
  | nil => rfl
  | cons c t ih =>
      obtain ⟨first, rest, ht⟩ := List.exists_cons_of_ne_nil (lines_ne_nil t)
      by_cases hc : c = '\n'
      · subst hc
        have hlines : lines ('\n' :: t) = [] :: lines t := lines_append_newline [] t
        rw [hlines, List.map_cons, ← ih]
        rfl
      · have hbytes : ∀ b ∈ String.utf8EncodeChar c, (b == 10) = false := by
          intro b hb
          rw [beq_eq_false_iff_ne]
          rintro rfl
          exact hc (eq_newline_of_mem hb)
        calc Sequence.split 10 (encode (c :: t))
            = Sequence.mapFirst (String.utf8EncodeChar c ++ ·) (Sequence.split 10 (encode t)) :=
              Sequence.splitWhen_append_of_forall hbytes (encode t)
          _ = (lines (c :: t)).map encode := by
              rw [ih, lines_cons_of_ne hc, ht]
              rfl

end Marginalia.Text

namespace Marginalia.Bytes

theorem decodeDropping_encode (t : Text) : decodeDropping t.encode = t := by
  rw [decodeDropping, utf8Pieces_encode, List.filterMap_map]
  exact List.filterMap_some

end Marginalia.Bytes
