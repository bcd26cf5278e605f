import Marginalia.Text.Utf8
import Mathlib.Data.List.Basic

/-!
Encoding and decoding of UTF-8: the scan finds in an encoded text exactly its characters.
-/

namespace Marginalia

/-! ## Leading bytes -/

namespace Utf8Piece

variable {n : Nat}

theorem ofLead_one (h : n ≤ 0x7F) : ofLead n = .inl (.char (Char.ofNat n)) := by
  rw [ofLead, if_pos (by omega)]

theorem ofLead_two (h : 0x7F < n) (h' : n ≤ 0x7FF) :
    ofLead (n / 64 % 32 + 0xC0) = .inr ⟨0, 0x80, 0xBF, n / 64⟩ := by
  have hlead : n / 64 % 32 = n / 64 := by omega
  rw [ofLead, hlead, if_neg (by omega), if_pos (by simp; omega), Nat.add_sub_cancel]

/-- The range of the second byte excludes what is too short for three bytes, and the surrogates. -/
theorem ofLead_three (h : 0x7FF < n) (h' : n ≤ 0xFFFF) (hs : n < 0xD800 ∨ 0xDFFF < n) :
    ∃ low high, ofLead (n / 4096 % 16 + 0xE0) = .inr ⟨1, low, high, n / 4096⟩ ∧
      low ≤ n / 64 % 64 + 0x80 ∧ n / 64 % 64 + 0x80 ≤ high := by
  have hlead : n / 4096 % 16 = n / 4096 := by omega
  rw [ofLead, hlead, if_neg (by omega), if_neg (by simp)]
  by_cases hlow : n / 4096 = 0
  · exact ⟨0xA0, 0xBF, by rw [hlow]; rfl, by omega, by omega⟩
  · by_cases hsurrogate : n / 4096 = 0xD
    · exact ⟨0x80, 0x9F, by rw [hsurrogate]; rfl, by omega, by omega⟩
    · refine ⟨0x80, 0xBF, ?_, by omega, by omega⟩
      rw [if_neg (by simp; omega), if_neg (by simp; omega), if_pos (by simp; omega),
        Nat.add_sub_cancel]

/-- The range of the second byte excludes what is too short for four bytes, and what is too large. -/
theorem ofLead_four (h : 0xFFFF < n) (h' : n < 0x110000) :
    ∃ low high, ofLead (n / 262144 % 8 + 0xF0) = .inr ⟨2, low, high, n / 262144⟩ ∧
      low ≤ n / 4096 % 64 + 0x80 ∧ n / 4096 % 64 + 0x80 ≤ high := by
  have hlead : n / 262144 % 8 = n / 262144 := by omega
  rw [ofLead, hlead, if_neg (by omega), if_neg (by simp), if_neg (by simp),
    if_neg (by simp), if_neg (by simp)]
  by_cases hlow : n / 262144 = 0
  · exact ⟨0x90, 0xBF, by rw [hlow]; rfl, by omega, by omega⟩
  · by_cases hhigh : n / 262144 = 4
    · exact ⟨0x80, 0x8F, by rw [hhigh]; rfl, by omega, by omega⟩
    · refine ⟨0x80, 0xBF, ?_, by omega, by omega⟩
      rw [if_neg (by simp; omega), if_pos (by simp; omega), Nat.add_sub_cancel]

end Utf8Piece

/-! ## The scan -/

namespace Bytes

theorem toNat_ofNat_of_lt {n : Nat} (h : n < 256) : (UInt8.ofNat n).toNat = n := by
  rw [UInt8.toNat_ofNat', Nat.mod_eq_of_lt h]

theorem scanUtf8_lead {b : Nat} {p : Utf8Pending} (hb : b < 256)
    (h : Utf8Piece.ofLead b = .inr p) (rest : Bytes) :
    scanUtf8 none (UInt8.ofNat b :: rest) = scanUtf8 (some p) rest := by
  rw [scanUtf8, toNat_ofNat_of_lt hb, h]

theorem scanUtf8_next {missing low high value b : Nat} (hb : b < 64)
    (hlow : low ≤ b + 0x80) (hhigh : b + 0x80 ≤ high) (rest : Bytes) :
    scanUtf8 (some ⟨missing + 1, low, high, value⟩) (UInt8.ofNat (b + 0x80) :: rest) =
      scanUtf8 (some ⟨missing, 0x80, 0xBF, value * 64 + b⟩) rest := by
  rw [scanUtf8, toNat_ofNat_of_lt (by omega), if_pos (by simp; omega), Nat.add_sub_cancel]

theorem scanUtf8_last {low high value b : Nat} (hb : b < 64)
    (hlow : low ≤ b + 0x80) (hhigh : b + 0x80 ≤ high) (rest : Bytes) :
    scanUtf8 (some ⟨0, low, high, value⟩) (UInt8.ofNat (b + 0x80) :: rest) =
      .char (Char.ofNat (value * 64 + b)) :: scanUtf8 none rest := by
  rw [scanUtf8, toNat_ofNat_of_lt (by omega), if_pos (by simp; omega), Nat.add_sub_cancel]

theorem scanUtf8_encodeChar (c : Char) (rest : Bytes) :
    scanUtf8 none (String.utf8EncodeChar c ++ rest) = .char c :: scanUtf8 none rest := by
  have hvalid : c.toNat < 0xD800 ∨ 0xDFFF < c.toNat ∧ c.toNat < 0x110000 := c.valid
  have hc : Char.ofNat c.toNat = c := Char.ofNat_toNat c
  simp only [String.utf8EncodeChar, show c.val.toNat = c.toNat from rfl]
  generalize c.toNat = n at hvalid hc
  subst hc
  split
  · rename_i h
    rw [List.singleton_append, scanUtf8, toNat_ofNat_of_lt (by omega), Utf8Piece.ofLead_one h]
  · rename_i h₁
    split
    · rename_i h
      simp only [List.cons_append, List.nil_append]
      rw [scanUtf8_lead (by omega) (Utf8Piece.ofLead_two (by omega) h),
        scanUtf8_last (by omega) (by omega) (by omega),
        show n / 64 * 64 + n % 64 = n by omega]
    · rename_i h₂
      split
      · rename_i h
        obtain ⟨low, high, hlead, hlow, hhigh⟩ :=
          Utf8Piece.ofLead_three (n := n) (by omega) h (by omega)
        simp only [List.cons_append, List.nil_append]
        rw [scanUtf8_lead (by omega) hlead, scanUtf8_next (by omega) hlow hhigh,
          scanUtf8_last (by omega) (by omega) (by omega),
          show (n / 4096 * 64 + n / 64 % 64) * 64 + n % 64 = n by omega]
      · rename_i h₃
        obtain ⟨low, high, hlead, hlow, hhigh⟩ :=
          Utf8Piece.ofLead_four (n := n) (by omega) (by omega)
        simp only [List.cons_append, List.nil_append]
        rw [scanUtf8_lead (by omega) hlead, scanUtf8_next (by omega) hlow hhigh,
          scanUtf8_next (by omega) (by omega) (by omega),
          scanUtf8_last (by omega) (by omega) (by omega),
          show ((n / 262144 * 64 + n / 4096 % 64) * 64 + n / 64 % 64) * 64 + n % 64 = n by omega]

theorem scanUtf8_encode_append (t : Text) (rest : Bytes) :
    scanUtf8 none (t.encode ++ rest) = t.map .char ++ scanUtf8 none rest := by
  induction t with
  | nil => rfl
  | cons c t ih =>
      rw [Text.encode, List.flatMap_cons, List.append_assoc, scanUtf8_encodeChar]
      exact congrArg (Utf8Piece.char c :: ·) ih

/-- The scan finds the characters of an encoded text. -/
theorem utf8Pieces_encode (t : Text) : utf8Pieces t.encode = t.map .char := by
  have h := scanUtf8_encode_append t []
  rw [List.append_nil] at h
  rw [utf8Pieces, h, scanUtf8, List.append_nil]

theorem decode?_encode (t : Text) : decode? t.encode = some t := by
  rw [decode?, utf8Pieces_encode]
  induction t with
  | nil => rfl
  | cons c t ih => rw [List.map_cons, List.mapM_cons, ih]; rfl

theorem decodeReplacing_encode (t : Text) : decodeReplacing t.encode = t := by
  rw [decodeReplacing, utf8Pieces_encode, List.map_map]
  exact List.map_id t

end Bytes

/-! ## Lengths -/

namespace Text

theorem utf8Length_cons (c : Char) (t : Text) :
    utf8Length (c :: t) = c.utf8Size + t.utf8Length := rfl

theorem utf8Length_append (t u : Text) : utf8Length (t ++ u) = t.utf8Length + u.utf8Length := by
  induction t with
  | nil => exact (Nat.zero_add _).symm
  | cons c t ih => rw [List.cons_append, utf8Length_cons, ih, utf8Length_cons, Nat.add_assoc]

theorem utf8Length_replicate_newline (k : Nat) : utf8Length (List.replicate k '\n') = k := by
  induction k with
  | zero => rfl
  | succ k ih => rw [List.replicate_succ, utf8Length_cons, ih, Nat.add_comm]; rfl

theorem utf8Length_eq_zero {t : Text} (h : t.utf8Length = 0) : t = [] := by
  cases t with
  | nil => rfl
  | cons c t => exact absurd (Nat.eq_zero_of_add_eq_zero_right h) (Nat.ne_of_gt c.utf8Size_pos)

end Text

end Marginalia
