import Mathlib.Algebra.Order.BigOperators.Group.List
import Marginalia.Proofs.Calendar

/-!
The order of time. Dates come in the order of their days where they are compared by year, month and
day, and the texts of moments in the order of the moments where they are compared character by
character.
-/

namespace Marginalia

/-! ## Digits -/

namespace Text

variable {width n n' : Nat} {t t' u u' : Text} {c c' : Char}

theorem append_lt_append_iff (h : t.length = t'.length) :
    t ++ u < t' ++ u' ↔ t < t' ∨ t = t' ∧ u < u' := by
  induction t generalizing t' with
  | nil =>
      rw [List.length_eq_zero_iff.mp h.symm]
      simp
  | cons c t ih =>
      obtain ⟨c', rest, rfl⟩ := List.exists_cons_of_length_eq_add_one h.symm
      have hrest : t.length = rest.length := Nat.succ.inj h
      rw [List.cons_append, List.cons_append, List.cons_lt_cons_iff, List.cons_lt_cons_iff,
        ih hrest, List.cons.injEq]
      tauto

theorem toNat_of_isDigit (h : c.isDigit = true) :
    '0'.toNat ≤ c.toNat ∧ c.toNat ≤ '0'.toNat + 9 := by
  simp only [Char.isDigit, Bool.and_eq_true, decide_eq_true_eq, ge_iff_le,
    UInt32.le_iff_toNat_le] at h
  exact h

theorem ofDigitChars_cons_zero (c : Char) (t : Text) : Nat.ofDigitChars 10 (c :: t) 0 =
    10 ^ t.length * (c.toNat - '0'.toNat) + Nat.ofDigitChars 10 t 0 := by
  rw [Nat.ofDigitChars_cons, Nat.mul_zero, Nat.zero_add, Nat.ofDigitChars_eq_ofDigitChars_zero]

theorem ofDigitChars_lt (h : ∀ c ∈ t, c.isDigit = true) :
    Nat.ofDigitChars 10 t 0 < 10 ^ t.length := by
  induction t with
  | nil => decide
  | cons c t ih =>
      obtain ⟨hc, ht⟩ := List.forall_mem_cons.mp h
      have hdigit : c.toNat - '0'.toNat < 10 := by
        have hself := toNat_of_isDigit hc
        omega
      calc Nat.ofDigitChars 10 (c :: t) 0
          = 10 ^ t.length * (c.toNat - '0'.toNat) + Nat.ofDigitChars 10 t 0 :=
            ofDigitChars_cons_zero c t
        _ < 10 ^ t.length * (c.toNat - '0'.toNat) + 10 ^ t.length := Nat.add_lt_add_left (ih ht) _
        _ = 10 ^ t.length * (c.toNat - '0'.toNat + 1) := (Nat.mul_succ _ _).symm
        _ ≤ 10 ^ t.length * 10 := Nat.mul_le_mul_left _ hdigit
        _ = 10 ^ (c :: t).length := (Nat.pow_succ ..).symm

/-- Of two numbers in two parts the first part decides, where the second ones are below the base. -/
theorem mul_add_lt_mul_add_iff {base a a' b b' : Nat} (hb : b < base) (hb' : b' < base) :
    base * a + b < base * a' + b' ↔ a < a' ∨ a = a' ∧ b < b' := by
  rcases Nat.lt_trichotomy a a' with hlt | rfl | hgt
  · have hle := Nat.mul_le_mul_left base (Nat.succ_le_of_lt hlt)
    rw [Nat.mul_succ] at hle
    exact iff_of_true (by omega) (.inl hlt)
  · simp
  · have hle := Nat.mul_le_mul_left base (Nat.succ_le_of_lt hgt)
    rw [Nat.mul_succ] at hle
    exact iff_of_false (by omega) (by omega)

theorem lt_iff_ofDigitChars_lt (hlength : t.length = t'.length) (h : ∀ c ∈ t, c.isDigit = true)
    (h' : ∀ c ∈ t', c.isDigit = true) :
    t < t' ↔ Nat.ofDigitChars 10 t 0 < Nat.ofDigitChars 10 t' 0 := by
  induction t generalizing t' with
  | nil =>
      rw [List.length_eq_zero_iff.mp hlength.symm]
      simp
  | cons c t ih =>
      obtain ⟨c', rest, rfl⟩ := List.exists_cons_of_length_eq_add_one hlength.symm
      obtain ⟨hc, ht⟩ := List.forall_mem_cons.mp h
      obtain ⟨hc', hrest⟩ := List.forall_mem_cons.mp h'
      have hsame : t.length = rest.length := Nat.succ.inj hlength
      have hbound := ofDigitChars_lt hrest
      rw [← hsame] at hbound
      have hval := toNat_of_isDigit hc
      have hval' := toNat_of_isDigit hc'
      have hlt : c < c' ↔ c.toNat - '0'.toNat < c'.toNat - '0'.toNat := by
        rw [Char.lt_def, UInt32.lt_iff_toNat_lt]
        change c.toNat < c'.toNat ↔ _
        omega
      have heq : c = c' ↔ c.toNat - '0'.toNat = c'.toNat - '0'.toNat := by
        rw [← Char.toNat_inj]
        omega
      rw [List.cons_lt_cons_iff, ih hsame ht hrest, hlt, heq, ofDigitChars_cons_zero,
        ofDigitChars_cons_zero, ← hsame, mul_add_lt_mul_add_iff (ofDigitChars_lt ht) hbound]

/-- Numbers in equally many digits are in the order of their digits. -/
theorem Digits.lt_iff (h : Digits width n t) (h' : Digits width n' t') : t < t' ↔ n < n' := by
  rw [lt_iff_ofDigitChars_lt (h.length.trans h'.length.symm) h.digits h'.digits, h.value, h'.value]

theorem Digits.eq_iff (h : Digits width n t) (h' : Digits width n' t') : t = t' ↔ n = n' := by
  constructor
  · rintro rfl
    exact h.value.symm.trans h'.value
  · rintro rfl
    rcases Std.lt_trichotomy t t' with hlt | heq | hgt
    · exact absurd ((h.lt_iff h').mp hlt) (Nat.lt_irrefl n)
    · exact heq
    · exact absurd ((h'.lt_iff h).mp hgt) (Nat.lt_irrefl n)

/-- A number in front of the rest of two texts decides, unless it is the same. -/
theorem Digits.append_lt_iff (h : Digits width n t) (h' : Digits width n' t') :
    t ++ c :: u < t' ++ c :: u' ↔ n < n' ∨ n = n' ∧ u < u' := by
  rw [append_lt_append_iff (h.length.trans h'.length.symm), h.lt_iff h', h.eq_iff h',
    List.cons_lt_cons_iff]
  simp

end Text

/-! ## Dates -/

namespace Date

variable {d d' : Date} {year : Nat}

/-- The earlier date, by year, month and day. -/
def Before (d d' : Date) : Prop :=
  d.year < d'.year ∨ d.year = d'.year ∧ (d.month < d'.month ∨ d.month = d'.month ∧ d.day < d'.day)

theorem before_trichotomy (d d' : Date) : d.Before d' ∨ d = d' ∨ d'.Before d := by
  obtain ⟨year, month, day⟩ := d
  obtain ⟨year', month', day'⟩ := d'
  simp only [Before, mk.injEq]
  omega

theorem daysBefore_succ (year : Nat) : daysBefore (year + 2) =
    daysBefore (year + 1) + (monthLengths (isLeapYear (year + 1))).sum := by
  have hsum : ∀ leap, (monthLengths leap).sum = if leap = true then 366 else 365 := by decide
  have hfour : (year + 1) / 4 = year / 4 + if (year + 1) % 4 = 0 then 1 else 0 := by
    split <;> omega
  have hhundred : (year + 1) / 100 = year / 100 + if (year + 1) % 100 = 0 then 1 else 0 := by
    split <;> omega
  have hera : (year + 1) / 400 = year / 400 + if (year + 1) % 400 = 0 then 1 else 0 := by
    split <;> omega
  have hleap : isLeapYear (year + 1) = true ↔
      (year + 1) % 4 = 0 ∧ ((year + 1) % 100 ≠ 0 ∨ (year + 1) % 400 = 0) := by
    simp [isLeapYear]
  have hdivides : (year + 1) % 100 = 0 → (year + 1) % 4 = 0 := by omega
  have hdivides' : (year + 1) % 400 = 0 → (year + 1) % 100 = 0 := by omega
  have hle : year / 100 ≤ year / 4 := by omega
  simp only [hsum, hleap, daysBefore, Nat.add_sub_cancel, Nat.add_succ_sub_one, hfour, hhundred,
    hera]
  clear hfour hhundred hera hleap
  -- The quotients and remainders count as unknowns from here on.
  generalize year / 4 = fours, year / 100 = hundreds, year / 400 = eras at *
  generalize (year + 1) % 4 = inFour, (year + 1) % 100 = inHundred, (year + 1) % 400 = inEra at *
  split_ifs <;> omega

theorem daysBefore_le {year' : Nat} (h : year < year') :
    daysBefore (year + 1) ≤ daysBefore year' := by
  rcases Nat.eq_or_lt_of_le (Nat.succ_le_of_lt h) with rfl | hlt
  · rfl
  · unfold daysBefore
    omega

/-- The number of days from the first of January to the first of a month. -/
def daysBeforeMonth (year month : Nat) : Nat :=
  ((monthLengths (isLeapYear year)).take (month - 1)).sum

theorem daysBeforeMonth_le {month month' : Nat} (h : month ≤ month') :
    daysBeforeMonth year month ≤ daysBeforeMonth year month' :=
  List.monotone_sum_take _ (Nat.sub_le_sub_right h 1)

theorem Valid.lt_daysBeforeMonth (h : d.Valid) :
    daysBeforeMonth d.year d.month + (d.day - 1) < daysBeforeMonth d.year (d.month + 1) := by
  have hstep : ∀ leap, ∀ month < 12, ((monthLengths leap).take (month + 1)).sum =
      ((monthLengths leap).take month).sum + (monthLengths leap)[month]?.getD 0 := by decide
  have hmonth := h.month
  have hday := h.day
  have hself := hstep (isLeapYear d.year) (d.month - 1) (by omega)
  rw [Nat.sub_add_cancel hmonth.1] at hself
  unfold monthLength at hday
  unfold daysBeforeMonth
  rw [Nat.add_sub_cancel]
  omega

theorem Valid.number_lt (h : d.Valid) : d.number < daysBefore (d.year + 1) := by
  obtain ⟨year, hyear⟩ := Nat.exists_eq_add_of_le' h.year.1
  have hmonth : daysBeforeMonth d.year (d.month + 1) ≤ daysBeforeMonth d.year 13 :=
    daysBeforeMonth_le (Nat.succ_le_succ h.month.2)
  have hsum : daysBeforeMonth d.year 13 = (monthLengths (isLeapYear d.year)).sum := rfl
  calc d.number
      = daysBefore d.year + (daysBeforeMonth d.year d.month + (d.day - 1)) := Nat.add_assoc ..
    _ < daysBefore d.year + (monthLengths (isLeapYear d.year)).sum :=
        Nat.add_lt_add_left (h.lt_daysBeforeMonth.trans_le (hsum ▸ hmonth)) _
    _ = daysBefore (d.year + 1) := by rw [hyear, daysBefore_succ]

theorem number_lt_of_before (hd : d.Valid) (h : d.Before d') : d.number < d'.number := by
  have hself : ∀ d : Date,
      d.number = daysBefore d.year + daysBeforeMonth d.year d.month + (d.day - 1) := fun _ => rfl
  rcases h with hyear | ⟨hyear, hmonth | ⟨hmonth, hday⟩⟩
  · have hnext := hd.number_lt
    have hle := daysBefore_le hyear
    rw [hself d']
    omega
  · have hnext := hd.lt_daysBeforeMonth
    have hle : daysBeforeMonth d.year (d.month + 1) ≤ daysBeforeMonth d.year d'.month :=
      daysBeforeMonth_le hmonth
    rw [hself d, hself d', ← hyear]
    omega
  · have hlow := hd.day.1
    rw [hself d, hself d', ← hyear, ← hmonth]
    omega

end Date

/-! ## Moments -/

namespace Moment

variable {m m' : Moment} {t t' : Text}

theorem IsIso.length (h : m.IsIso t) : t.length = 24 := by
  obtain ⟨d, hour, minute, second, -, -, -, -, -, yyyy, mm, dd, hh, mi, ss, hy, hmo, hda, hho, hmi,
    hse, rfl⟩ := h
  simp [hy.length, hmo.length, hda.length, hho.length, hmi.length, hse.length]

theorem IsIso.lt_iff (h : m.IsIso t) (h' : m'.IsIso t') : t < t' ↔ m.seconds < m'.seconds := by
  obtain ⟨d, hour, minute, second, hd, hhour, hminute, hsecond, hcount, yyyy, mm, dd, hh, mi, ss,
    hy, hmo, hda, hho, hmi, hse, rfl⟩ := h
  obtain ⟨d', hour', minute', second', hd', hhour', hminute', hsecond', hcount', yyyy', mm', dd',
    hh', mi', ss', hy', hmo', hda', hho', hmi', hse', rfl⟩ := h'
  have horder : (d.year < d'.year ∨ d.year = d'.year ∧ (d.month < d'.month ∨
      d.month = d'.month ∧ (d.day < d'.day ∨ d.day = d'.day ∧ (hour < hour' ∨
      hour = hour' ∧ (minute < minute' ∨ minute = minute' ∧ second < second'))))) ↔
      m.seconds < m'.seconds := by
    rcases Date.before_trichotomy d d' with hbefore | heq | hafter
    · have hnumber := Date.number_lt_of_before hd hbefore
      unfold Date.Before at hbefore
      omega
    · subst heq
      omega
    · have hnumber := Date.number_lt_of_before hd' hafter
      unfold Date.Before at hafter
      omega
  rw [← horder]
  simp only [List.append_assoc, List.cons_append, hy.append_lt_iff hy', hmo.append_lt_iff hmo',
    hda.append_lt_iff hda', hho.append_lt_iff hho', hmi.append_lt_iff hmi',
    Text.append_lt_append_iff (hse.length.trans hse'.length.symm), hse.lt_iff hse', List.lt_irrefl,
    and_false, or_false]

end Moment

end Marginalia
