import Marginalia.Json.Reader
import Marginalia.Json.Writer

/-!
Strings and integers of JSON texts: what is written is read back, whatever follows it.
-/

namespace Marginalia.Json

/-! ## Strings -/

theorem hexValue?_control : ∀ n < 0x20,
    Text.hex 4 n = ['0', '0', Nat.digitChar (n / 16), Nat.digitChar (n % 16)] ∧
      hexValue? (Nat.digitChar (n / 16)) = some (n / 16) ∧
      hexValue? (Nat.digitChar (n % 16)) = some (n % 16) := by
  decide

/-- Four hexadecimal digits of a control character. -/
theorem readString_control {c : Char} (h : c.toNat < 0x20) (more : Text) :
    readString .plain ('\\' :: 'u' :: (Text.hex 4 c.toNat ++ more)) =
      (readString .plain more).map fun (t, rest) => (c :: t, rest) := by
  obtain ⟨hhex, hhigh, hlow⟩ := hexValue?_control c.toNat h
  have hzero : hexValue? '0' = some 0 := by decide
  have hvalue : ((0 * 16 + 0) * 16 + 0) * 16 + c.toNat / 16 = c.toNat / 16 := by omega
  have hresult : unitResult none (c.toNat / 16 * 16 + c.toNat % 16) = some (.inl c) := by
    rw [show c.toNat / 16 * 16 + c.toNat % 16 = c.toNat by omega, unitResult,
      if_neg (by simp; omega), if_neg (by simp; omega), Char.ofNat_toNat]
  rw [hhex]
  simp only [List.cons_append, List.nil_append]
  simp only [readString, hzero, hhigh, hlow, hvalue, hresult, if_true]
  rfl

theorem readString_escapeChar (c : Char) (more : Text) :
    readString .plain (escapeChar c ++ more) =
      (readString .plain more).map fun (t, rest) => (c :: t, rest) := by
  unfold escapeChar
  split
  case h_8 =>
    rename_i hquote hslash _ _ _ _ _
    split
    · rename_i hc
      exact readString_control hc more
    · rename_i hc
      rw [List.singleton_append, readString, if_neg hquote, if_neg hslash, if_neg hc]
  all_goals rfl

/-- A written string is read back up to its closing quote. -/
theorem readString_flatMap_escapeChar (t rest : Text) :
    readString .plain (t.flatMap escapeChar ++ '"' :: rest) = some (t, rest) := by
  induction t with
  | nil => rfl
  | cons c t ih =>
      rw [List.flatMap_cons, List.append_assoc, readString_escapeChar, ih]
      rfl

theorem stringText_append (t rest : Text) :
    stringText t ++ rest = '"' :: (t.flatMap escapeChar ++ '"' :: rest) := by
  simp only [stringText, List.cons_append, List.append_assoc, List.nil_append]

theorem readScalar_stringText (t rest : Text) :
    readScalar (stringText t ++ rest) = some (.string t, rest) := by
  rw [stringText_append]
  change (readString .plain _).map _ = _
  rw [readString_flatMap_escapeChar]
  rfl

/-! ## Integers -/

/-- What may follow a value: nothing, white space, a comma or a closing bracket. -/
def Ends (rest : Text) : Prop :=
  ∀ c ∈ rest.head?, isSpace c = true ∨ c = ',' ∨ c = ']' ∨ c = '}'

theorem Ends.cons {c : Char} (h : c = ',' ∨ c = ']' ∨ c = '}') (rest : Text) : Ends (c :: rest) := by
  intro d hd
  cases hd
  exact .inr h

theorem Ends.space_append {space rest : Text} (hs : ∀ c ∈ space, isSpace c = true)
    (h : Ends rest) : Ends (space ++ rest) := by
  cases space with
  | nil => exact h
  | cons c space =>
      intro d hd
      cases hd
      exact .inl (hs c List.mem_cons_self)

theorem isAsciiDigit_toDigits {n : Nat} {c : Char} (h : c ∈ Nat.toDigits 10 n) :
    Text.isAsciiDigit c = true :=
  Nat.isDigit_of_mem_toDigits (by decide) (by decide) h

/-- What ends a value goes on with none of the characters that a number has. -/
theorem Ends.not_number {c : Char} {rest : Text} (h : Ends (c :: rest)) :
    Text.isAsciiDigit c = false ∧ c ≠ '.' ∧ c ≠ 'e' ∧ c ≠ 'E' := by
  rcases h c rfl with hs | rfl | rfl | rfl
  · simp only [isSpace, Bool.or_eq_true, beq_iff_eq] at hs
    rcases hs with ((rfl | rfl) | rfl) | rfl <;> decide
  all_goals decide

theorem spanDigits_append {ds rest : Text} (hd : ∀ c ∈ ds, Text.isAsciiDigit c = true)
    (hr : Ends rest) : spanDigits (ds ++ rest) = (ds, rest) := by
  have hend : rest.takeWhile Text.isAsciiDigit = [] ∧ rest.dropWhile Text.isAsciiDigit = rest := by
    cases rest with
    | nil => exact ⟨rfl, rfl⟩
    | cons c rest =>
        have hc := hr.not_number.1
        exact ⟨List.takeWhile_cons_of_neg (by simp [hc]), List.dropWhile_cons_of_neg (by simp [hc])⟩
  rw [spanDigits, List.takeWhile_append_of_pos hd, List.dropWhile_append_of_pos hd, hend.1, hend.2,
    List.append_nil]

/-- A positive number has no leading zero. -/
theorem head_toDigits_ne_zero {n : Nat} (h : 0 < n) :
    ∃ d ds, Nat.toDigits 10 n = d :: ds ∧ d ≠ '0' := by
  induction n using Nat.strongRecOn with
  | ind n ih =>
      rcases Nat.lt_or_ge n 10 with hlt | hge
      · refine ⟨Nat.digitChar n, [], Nat.toDigits_of_lt_base hlt, ?_⟩
        have hall : ∀ m < 10, 0 < m → Nat.digitChar m ≠ '0' := by decide
        exact hall n hlt h
      · obtain ⟨d, ds, hds, hd⟩ := ih (n / 10) (by omega) (by omega)
        refine ⟨d, ds ++ [Nat.digitChar (n % 10)], ?_, hd⟩
        rw [Nat.toDigits_of_base_le (by decide) hge, hds]
        rfl

theorem readWhole_toDigits (n : Nat) {rest : Text} (hr : Ends rest) :
    readWhole (Nat.toDigits 10 n ++ rest) = some (Nat.toDigits 10 n, rest) := by
  rcases Nat.eq_zero_or_pos n with rfl | hpos
  · rfl
  · obtain ⟨d, ds, hds, hd⟩ := head_toDigits_ne_zero hpos
    have hspan := spanDigits_append (fun c => isAsciiDigit_toDigits (n := n)) hr
    rw [hds] at hspan ⊢
    rw [List.cons_append] at hspan ⊢
    rw [readWhole, hspan]
    · rfl
    · intro rest' h
      exact hd (List.cons.inj h).1

theorem readFraction_ends {rest : Text} (hr : Ends rest) : readFraction rest = some ([], rest) := by
  cases rest with
  | nil => rfl
  | cons c rest =>
      rw [readFraction]
      intro rest' h
      exact hr.not_number.2.1 (List.cons.inj h).1

theorem readExponent_ends {rest : Text} (hr : Ends rest) : readExponent rest = some (none, rest) := by
  cases rest with
  | nil => rfl
  | cons c rest =>
      obtain ⟨-, -, he, hE⟩ := hr.not_number
      rw [readExponent, if_neg (by simp [he, hE])]

theorem readUnsigned_toDigits (negative : Bool) (n : Nat) {rest : Text} (hr : Ends rest) :
    readUnsigned negative (Nat.toDigits 10 n ++ rest) = some (.int (Text.signed negative n), rest) := by
  rw [readUnsigned, readWhole_toDigits n hr]
  simp only [Option.bind_eq_bind, Option.bind_some, readFraction_ends hr, readExponent_ends hr,
    Nat.ofDigitChars_ten_toDigits]

theorem dropWord?_eq_none {word : Text} {c d : Char} {cs : Text} (hw : word.head? = some c)
    (h : c ≠ d) : dropWord? word (d :: cs) = none := by
  cases word with
  | nil => cases hw
  | cons c' word =>
      cases hw
      rw [dropWord?, if_neg]
      simp [List.isPrefixOf, h]

/-- No word that is a value begins with a digit. -/
theorem findSome?_words_digit {d : Char} (hd : Text.isAsciiDigit d = true) (cs : Text) :
    (words.findSome? fun (word, v) => (dropWord? word (d :: cs)).map fun rest => (v, rest)) =
      none := by
  rw [List.findSome?_eq_none_iff]
  intro (word, v) hm
  have hhead : ∃ c, word.head? = some c ∧ Text.isAsciiDigit c = false := by
    simp only [words, List.mem_cons, List.not_mem_nil, or_false, Prod.mk.injEq] at hm
    rcases hm with ⟨rfl, -⟩ | ⟨rfl, -⟩ | ⟨rfl, -⟩ | ⟨rfl, -⟩ | ⟨rfl, -⟩ | ⟨rfl, -⟩ <;>
      exact ⟨_, rfl, by decide⟩
  obtain ⟨c, hc, hdigit⟩ := hhead
  have hne : c ≠ d := fun he => by
    rw [he, hd] at hdigit
    cases hdigit
  change (dropWord? word (d :: cs)).map _ = none
  rw [dropWord?_eq_none hc hne]
  rfl

/-- The one word with a sign does not go on with a digit. -/
theorem findSome?_words_minus {d : Char} (hd : Text.isAsciiDigit d = true) (cs : Text) :
    (words.findSome? fun (word, v) => (dropWord? word ('-' :: d :: cs)).map fun rest => (v, rest)) =
      none := by
  have hne : 'I' ≠ d := by
    rintro rfl
    cases hd
  have hinfinity : dropWord? "-Infinity" ('-' :: d :: cs) = none := by
    rw [dropWord?, if_neg]
    simp [List.isPrefixOf, hne]
  simp only [words, List.findSome?, hinfinity]
  rfl

theorem readScalar_ofInt (n : Int) {rest : Text} (hr : Ends rest) :
    readScalar (Text.ofInt n ++ rest) = some (.int n, rest) := by
  cases n with
  | ofNat k =>
      have hread := readUnsigned_toDigits false k hr
      obtain ⟨d, ds, hds⟩ := List.exists_cons_of_ne_nil (Nat.toDigits_ne_nil (n := k) (b := 10))
      have hd : Text.isAsciiDigit d = true :=
        isAsciiDigit_toDigits (n := k) (hds ▸ List.mem_cons_self)
      rw [Text.ofInt]
      rw [hds, List.cons_append] at hread ⊢
      rw [readScalar, findSome?_words_digit hd]
      · exact hread
      · intro rest' h
        rw [(List.cons.inj h).1] at hd
        cases hd
      · intro rest' h
        rw [(List.cons.inj h).1] at hd
        cases hd
  | negSucc k =>
      have hread := readUnsigned_toDigits true (k + 1) hr
      obtain ⟨d, ds, hds⟩ :=
        List.exists_cons_of_ne_nil (Nat.toDigits_ne_nil (n := k + 1) (b := 10))
      have hd : Text.isAsciiDigit d = true :=
        isAsciiDigit_toDigits (n := k + 1) (hds ▸ List.mem_cons_self)
      rw [Text.ofInt]
      rw [hds] at hread ⊢
      rw [List.cons_append, List.cons_append] at *
      rw [readScalar, findSome?_words_minus hd]
      exact hread

end Marginalia.Json
