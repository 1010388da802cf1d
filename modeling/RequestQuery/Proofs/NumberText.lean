import RequestQuery.Binary64.Layout
import RequestQuery.Proofs.ShortestDecimal
import RequestQuery.Text.Split

/-!
# Texts of numbers

Two binary64 numbers with the same text are the same number. A text is read back as the decimal that
it writes, in both notations, and a number is told by its sign and its shortest decimal.

* `readMagnitude`: the number that a decimal text without a sign writes.
* `readMagnitude_positional`, `readMagnitude_exponential`: both notations are read back.
* `Layout.chars_injective`: a number is told by its text.
-/

namespace RequestQuery.Binary64

/-! ## Reading -/

/-- The number that digits with a point among them write. -/
def readMantissa (cs : List Char) : ℚ :=
  let whole := cs.takeWhile (· != '.')
  let fraction := (cs.dropWhile (· != '.')).drop 1
  Nat.ofDigitChars 10 (whole ++ fraction) 0 * 10 ^ (-(fraction.length : ℤ))

/-- The exponent of a power of ten after its letter and its sign, zero when there is none. -/
def readExponent : List Char → ℤ
  | _ :: '-' :: ds => -(Nat.ofDigitChars 10 ds 0 : ℤ)
  | _ :: _ :: ds => Nat.ofDigitChars 10 ds 0
  | _ => 0

/-- The number that a decimal text without a sign writes. -/
def readMagnitude (cs : List Char) : ℚ :=
  readMantissa (cs.takeWhile (· != 'e')) * 10 ^ readExponent (cs.dropWhile (· != 'e'))

theorem readExponent_nil : readExponent [] = 0 := rfl

section Read

variable {whole fraction : List Char}

theorem ne_of_isDigit {c d : Char} (h : c.isDigit = true) (hd : d.isDigit = false) :
    (c != d) = true := by
  refine bne_iff_ne.2 ?_
  rintro rfl
  rw [h] at hd
  cases hd

theorem readMantissa_point (hwhole : ∀ c ∈ whole, c.isDigit = true) (fraction : List Char) :
    readMantissa (whole ++ '.' :: fraction) =
      Nat.ofDigitChars 10 (whole ++ fraction) 0 * 10 ^ (-(fraction.length : ℤ)) := by
  have hall : ∀ c ∈ whole, (c != '.') = true := fun c hc => ne_of_isDigit (hwhole c hc) rfl
  have hhead : ∀ c ∈ ('.' :: fraction).head?, (c != '.') = false := by
    rintro _ ⟨⟩
    rfl
  unfold readMantissa
  simp only [Text.takeWhile_append_of_head hall hhead, Text.dropWhile_append_of_head hall hhead,
    List.drop_one, List.tail_cons]

theorem readMantissa_whole (hwhole : ∀ c ∈ whole, c.isDigit = true) :
    readMantissa whole = Nat.ofDigitChars 10 whole 0 := by
  have hall : ∀ c ∈ whole, (c != '.') = true := fun c hc => ne_of_isDigit (hwhole c hc) rfl
  have hnone : ∀ c ∈ ([] : List Char).head?, (c != '.') = false := nofun
  have htake := Text.takeWhile_append_of_head hall hnone
  have hdrop := Text.dropWhile_append_of_head hall hnone
  rw [List.append_nil] at htake hdrop
  unfold readMantissa
  simp [htake, hdrop]

end Read

/-! ## Notations -/

section Notation

variable {s : Scientific}

theorem isDigit_of_mem_replicate_zero {k : ℕ} {c : Char} (h : c ∈ List.replicate k '0') :
    c.isDigit = true := by
  rw [List.eq_of_mem_replicate h]
  rfl

/-- A positional text has no exponent. -/
theorem readMagnitude_of_point {whole fraction : List Char}
    (hwhole : ∀ c ∈ whole, c.isDigit = true) (hfraction : ∀ c ∈ fraction, c.isDigit = true) :
    readMagnitude (whole ++ '.' :: fraction) =
      Nat.ofDigitChars 10 (whole ++ fraction) 0 * 10 ^ (-(fraction.length : ℤ)) := by
  have hall : ∀ c ∈ whole ++ '.' :: fraction, (c != 'e') = true := by
    intro c hc
    rcases List.mem_append.1 hc with hc | hc
    · exact ne_of_isDigit (hwhole c hc) rfl
    · rcases List.mem_cons.1 hc with rfl | hc
      · rfl
      · exact ne_of_isDigit (hfraction c hc) rfl
  have hnone : ∀ c ∈ ([] : List Char).head?, (c != 'e') = false := nofun
  have htake := Text.takeWhile_append_of_head hall hnone
  have hdrop := Text.dropWhile_append_of_head hall hnone
  rw [List.append_nil] at htake hdrop
  rw [readMagnitude, htake, hdrop, readMantissa_point hwhole, readExponent_nil, zpow_zero,
    mul_one]

/-- A positional text has a point between digits, and writes the number. -/
structure Writes (s : Scientific) (whole fraction : List Char) : Prop where
  whole_ne_nil : whole ≠ []
  whole_digits : ∀ c ∈ whole, c.isDigit = true
  fraction_digits : ∀ c ∈ fraction, c.isDigit = true
  value_eq : (Nat.ofDigitChars 10 (whole ++ fraction) 0 : ℚ) * 10 ^ (-(fraction.length : ℤ)) =
    s.value

theorem positional_small (hs : ∀ c ∈ s.digits, c.isDigit = true) (hneg : s.exponent < 0) :
    ∃ whole fraction, positional s = whole ++ '.' :: fraction ∧ Writes s whole fraction := by
  set k := (-s.exponent - 1).toNat with hk
  refine ⟨['0'], List.replicate k '0' ++ s.digits, ?_, List.cons_ne_nil _ _, ?_, ?_, ?_⟩
  · rw [positional, if_pos hneg, List.append_assoc]
    rfl
  · exact fun c hc => isDigit_of_mem_replicate_zero (k := 1) hc
  · exact fun c hc => (List.mem_append.1 hc).elim isDigit_of_mem_replicate_zero (hs c)
  · have hdigits : Nat.ofDigitChars 10 (['0'] ++ (List.replicate k '0' ++ s.digits)) 0 =
        Nat.ofDigitChars 10 s.digits 0 := by
      rw [← List.append_assoc, Nat.ofDigitChars_append, Nat.ofDigitChars_append,
        ofDigitChars_replicate_zero, Nat.ofDigitChars_cons, Nat.ofDigitChars_nil]
      simp
    have hexponent : -((List.replicate k '0' ++ s.digits).length : ℤ) =
        s.exponent + 1 - s.digits.length := by
      rw [List.length_append, List.length_replicate]
      omega
    rw [hdigits, hexponent, Scientific.value]

/-- Digits up to the place of the exponent, filled up with zeros, and those after it. -/
theorem positional_of_nonneg (hpos : 0 ≤ s.exponent) {w : ℕ} (hw : w = s.exponent.toNat + 1) :
    positional s = s.digits.take w ++ List.replicate (w - (s.digits.take w).length) '0' ++ ['.'] ++
      if (s.digits.drop w).isEmpty then ['0'] else s.digits.drop w := by
  rw [positional, if_neg (not_lt.2 hpos), hw]

theorem positional_whole (hs : ∀ c ∈ s.digits, c.isDigit = true) (hpos : 0 ≤ s.exponent)
    (hlen : s.digits.length ≤ s.exponent.toNat + 1) :
    ∃ whole fraction, positional s = whole ++ '.' :: fraction ∧ Writes s whole fraction := by
  set k := s.exponent.toNat + 1 - s.digits.length with hk
  refine ⟨s.digits ++ List.replicate k '0', ['0'], ?_, ?_, ?_, ?_, ?_⟩
  · rw [positional_of_nonneg hpos rfl, List.take_of_length_le hlen,
      List.drop_eq_nil_of_le hlen, List.append_assoc]
    rfl
  · intro hnil
    have := congrArg List.length hnil
    rw [List.length_append, List.length_replicate, List.length_nil] at this
    omega
  · exact fun c hc => (List.mem_append.1 hc).elim (hs c) isDigit_of_mem_replicate_zero
  · exact fun c hc => isDigit_of_mem_replicate_zero (k := 1) hc
  · have hdigits : Nat.ofDigitChars 10 (s.digits ++ List.replicate k '0' ++ ['0']) 0 =
        Nat.ofDigitChars 10 s.digits 0 * 10 ^ k * 10 := by
      rw [Nat.ofDigitChars_append, Nat.ofDigitChars_append, ofDigitChars_replicate_zero,
        ← pow_one 10, ← ofDigitChars_replicate_zero]
      rfl
    have hexponent : s.exponent + 1 - s.digits.length = (k : ℤ) := by omega
    rw [hdigits, Scientific.value, hexponent, zpow_natCast]
    push_cast
    simp

theorem positional_split (hs : ∀ c ∈ s.digits, c.isDigit = true) (hpos : 0 ≤ s.exponent)
    (hlen : s.exponent.toNat + 1 < s.digits.length) :
    ∃ whole fraction, positional s = whole ++ '.' :: fraction ∧ Writes s whole fraction := by
  set w := s.exponent.toNat + 1 with hw
  have htake : (s.digits.take w).length = w := List.length_take_of_le hlen.le
  refine ⟨s.digits.take w, s.digits.drop w, ?_, ?_, ?_, ?_, ?_⟩
  · have hafter : (s.digits.drop w).isEmpty = false := by
      rw [List.isEmpty_eq_false_iff, Ne, List.drop_eq_nil_iff]
      omega
    rw [positional_of_nonneg hpos hw, htake, Nat.sub_self, hafter]
    simp
  · intro hnil
    rw [hnil, List.length_nil] at htake
    omega
  · exact fun c hc => hs c (List.mem_of_mem_take hc)
  · exact fun c hc => hs c (List.mem_of_mem_drop hc)
  · have hexponent : -((s.digits.drop w).length : ℤ) = s.exponent + 1 - s.digits.length := by
      rw [List.length_drop]
      omega
    rw [List.take_append_drop, hexponent, Scientific.value]

/-- A positional text is read back. -/
theorem exists_positional (hs : ∀ c ∈ s.digits, c.isDigit = true) :
    ∃ whole fraction, positional s = whole ++ '.' :: fraction ∧ Writes s whole fraction := by
  rcases lt_or_ge s.exponent 0 with hneg | hpos
  · exact positional_small hs hneg
  · rcases Nat.lt_or_ge (s.exponent.toNat + 1) s.digits.length with hlen | hlen
    · exact positional_split hs hpos hlen
    · exact positional_whole hs hpos hlen

theorem readMagnitude_positional (hs : ∀ c ∈ s.digits, c.isDigit = true) :
    readMagnitude (positional s) = s.value := by
  obtain ⟨whole, fraction, htext, hwrites⟩ := exists_positional hs
  rw [htext, readMagnitude_of_point hwrites.whole_digits hwrites.fraction_digits,
    hwrites.value_eq]

/-- The part of a text with an exponent before its letter. -/
theorem readMagnitude_exponent {mantissa : List Char} (hm : ∀ c ∈ mantissa, (c != 'e') = true)
    (k : ℤ) :
    readMagnitude (mantissa ++
        'e' :: (if k < 0 then '-' else '+') :: Nat.toDigits 10 k.natAbs) =
      readMantissa mantissa * 10 ^ k := by
  have hhead : ∀ c ∈ ('e' :: (if k < 0 then '-' else '+') :: Nat.toDigits 10 k.natAbs).head?,
      (c != 'e') = false := by
    rintro _ ⟨⟩
    rfl
  have hexponent : readExponent ('e' :: (if k < 0 then '-' else '+') ::
      Nat.toDigits 10 k.natAbs) = k := by
    split
    · rw [readExponent, Nat.ofDigitChars_ten_toDigits]
      omega
    · rw [readExponent, Nat.ofDigitChars_ten_toDigits]
      · omega
      · intro h
        cases h
  rw [readMagnitude, Text.takeWhile_append_of_head hm hhead,
    Text.dropWhile_append_of_head hm hhead, hexponent]

theorem readMagnitude_exponential (hs : ∀ c ∈ s.digits, c.isDigit = true) (hne : s.digits ≠ []) :
    readMagnitude (exponential s) = s.value := by
  set tail := 'e' :: (if s.exponent < 0 then '-' else '+') :: Nat.toDigits 10 s.exponent.natAbs
    with htail
  match hds : s.digits with
  | [] => exact absurd hds hne
  | [d] =>
    have hd : ∀ c ∈ [d], c.isDigit = true := hds ▸ hs
    have htext : exponential s = [d] ++ tail := by rw [exponential, hds]; rfl
    have hexponent : s.exponent + 1 - ([d].length : ℤ) = s.exponent := by simp
    rw [htext, readMagnitude_exponent (fun c hc => ne_of_isDigit (hd c hc) rfl),
      readMantissa_whole hd, Scientific.value, hds, hexponent]
  | d :: c :: ds =>
    have hd : ∀ x ∈ [d], x.isDigit = true := fun x hx =>
      hs x (hds ▸ List.mem_cons.2 (.inl (List.mem_singleton.1 hx)))
    have hrest : ∀ x ∈ c :: ds, x.isDigit = true := fun x hx =>
      hs x (hds ▸ List.mem_cons_of_mem d hx)
    have htext : exponential s = ([d] ++ '.' :: c :: ds) ++ tail := by
      rw [exponential, hds]
      simp [htail]
    have hmantissa : ∀ x ∈ [d] ++ '.' :: c :: ds, (x != 'e') = true := by
      intro x hx
      rcases List.mem_append.1 hx with hx | hx
      · exact ne_of_isDigit (hd x hx) rfl
      · rcases List.mem_cons.1 hx with rfl | hx
        · rfl
        · exact ne_of_isDigit (hrest x hx) rfl
    have hexponent : s.exponent + 1 - ((d :: c :: ds).length : ℤ) =
        -((c :: ds).length : ℤ) + s.exponent := by
      rw [List.length_cons]
      push_cast
      ring
    rw [htext, readMagnitude_exponent hmantissa, readMantissa_point hd, Scientific.value, hds,
      hexponent, zpow_add₀ (by norm_num), mul_assoc]
    rfl

end Notation

/-! ## Texts -/

section Texts

variable {x y : Binary64}

theorem isDigit_of_mem_shortest {c : Char} (h : c ∈ x.shortest.digits) : c.isDigit = true := by
  have h' : c ∈ Nat.toDigits 10 _ :=
    List.mem_reverse.1 ((List.dropWhile_suffix _).subset (List.mem_reverse.1 h))
  exact Nat.isDigit_of_mem_toDigits (by decide) (by decide) h'

theorem shortest_digits_ne_nil (h : x.significand ≠ 0) : x.shortest.digits ≠ [] := by
  intro hnil
  have hpos := shortest_value_pos h
  rw [Scientific.value, hnil, Nat.ofDigitChars_nil, Nat.cast_zero, zero_mul] at hpos
  exact lt_irrefl _ hpos

/-- The text of a number without its sign. -/
def Layout.magnitudeChars (layout : Layout) (x : Binary64) : List Char :=
  if x.significand = 0 then ['0', '.', '0']
  else if layout.minExponent ≤ x.shortest.exponent ∧ x.shortest.exponent ≤ layout.maxExponent
    then positional x.shortest else exponential x.shortest

theorem Layout.chars_eq (layout : Layout) (x : Binary64) :
    layout.chars x = (if x.isNegative then ['-'] else []) ++ layout.magnitudeChars x := by
  unfold Layout.chars magnitudeChars
  simp only
  split <;> rfl

/-- A text is read back as the shortest decimal, and as zero only for zero. -/
theorem Layout.readMagnitude_magnitudeChars (layout : Layout) (x : Binary64) :
    readMagnitude (layout.magnitudeChars x) =
      if x.significand = 0 then 0 else x.shortest.value := by
  unfold magnitudeChars
  split
  · have hzero : ∀ c ∈ ['0'], c.isDigit = true := List.forall_mem_singleton.2 rfl
    refine (readMagnitude_of_point hzero hzero).trans ?_
    have hdigits : Nat.ofDigitChars 10 (['0'] ++ ['0']) 0 = 0 := rfl
    rw [hdigits, Nat.cast_zero, zero_mul]
  · next h =>
    split
    · exact readMagnitude_positional fun c => isDigit_of_mem_shortest
    · exact readMagnitude_exponential (fun c => isDigit_of_mem_shortest) (shortest_digits_ne_nil h)

/-- A text without its sign begins with a digit, and has a point or an exponent. -/
theorem Layout.exists_magnitudeChars (layout : Layout) (x : Binary64) :
    ∃ c cs, layout.magnitudeChars x = c :: cs ∧ c.isDigit = true ∧ ('.' ∈ cs ∨ 'e' ∈ cs) := by
  have hdigits : ∀ c ∈ x.shortest.digits, c.isDigit = true := fun c => isDigit_of_mem_shortest
  unfold magnitudeChars
  split
  · exact ⟨'0', ['.', '0'], rfl, rfl, .inl (by decide)⟩
  · next h =>
    split
    · obtain ⟨whole, fraction, htext, hwrites⟩ := exists_positional hdigits
      obtain ⟨c, cs, rfl⟩ := List.exists_cons_of_ne_nil hwrites.whole_ne_nil
      exact ⟨c, cs ++ '.' :: fraction, htext, hwrites.whole_digits c List.mem_cons_self,
        .inl (List.mem_append_right _ List.mem_cons_self)⟩
    · obtain ⟨d, ds, hds⟩ := List.exists_cons_of_ne_nil (shortest_digits_ne_nil h)
      rw [exponential, hds]
      exact ⟨d, _, rfl, hdigits d (hds ▸ List.mem_cons_self), .inr (by simp)⟩

theorem rank_eq_zero (h : x.significand = 0) : x.rank = 0 := by
  by_contra hne
  obtain ⟨r, hr⟩ := Nat.exists_eq_succ_of_ne_zero hne
  exact (significand_pos hr).ne' h

/-- A number is told by its sign and its text without it. -/
theorem Layout.eq_of_magnitudeChars (layout : Layout) (hsign : x.isNegative = y.isNegative)
    (h : layout.magnitudeChars x = layout.magnitudeChars y) : x = y := by
  have hread := congrArg readMagnitude h
  rw [layout.readMagnitude_magnitudeChars, layout.readMagnitude_magnitudeChars] at hread
  by_cases hx : x.significand = 0 <;> by_cases hy : y.significand = 0
  · exact eq_of_rank hsign ((rank_eq_zero hx).trans (rank_eq_zero hy).symm)
  · rw [if_pos hx, if_neg hy] at hread
    exact absurd hread (shortest_value_pos hy).ne
  · rw [if_neg hx, if_pos hy] at hread
    exact absurd hread (shortest_value_pos hx).ne'
  · rw [if_neg hx, if_neg hy] at hread
    exact eq_of_shortest hx hy hsign hread

/-- **A number is told by its text.** -/
theorem Layout.chars_injective (layout : Layout) (h : layout.chars x = layout.chars y) :
    x = y := by
  obtain ⟨c, cs, hc, hdigit, -⟩ := layout.exists_magnitudeChars x
  obtain ⟨d, ds, hd, hdigit', -⟩ := layout.exists_magnitudeChars y
  rw [layout.chars_eq, layout.chars_eq] at h
  have hminus : ('-' : Char).isDigit = false := rfl
  by_cases hx : x.isNegative <;> by_cases hy : y.isNegative
  · rw [if_pos hx, if_pos hy] at h
    exact layout.eq_of_magnitudeChars (hx.trans hy.symm) (List.append_cancel_left h)
  · rw [if_pos hx, if_neg hy, hd] at h
    cases h
    rw [hminus] at hdigit'
    cases hdigit'
  · rw [if_neg hx, if_pos hy, hc] at h
    cases h
    rw [hminus] at hdigit
    cases hdigit
  · rw [if_neg hx, if_neg hy] at h
    exact layout.eq_of_magnitudeChars (by simp_all) h

end Texts

end RequestQuery.Binary64
