import RequestQuery.Proofs.ShortestDecimal

/-!
# Finite numbers

A fraction is rounded to a finite number exactly when it lies below the point half-way from the
greatest finite number to the next power of two (`overflow`). That power would be reached by the
carry of a significand that is rounded up, and at half-way the significand is rounded up since it is
odd.

* `floorLog2_spec`: the power of two below a fraction.
* `le_roundHalfEven_iff`: when an even number is reached by rounding.
* `isFinite_ofDecimal_iff`: the decimals that are rounded to a finite number.
* `isNaN_ofDecimal`: a decimal always gives a number.
-/

namespace RequestQuery.Binary64

/-! ## Rounding -/

section Fractions

variable {num den : ℕ}

/-- Whether a power of two is at most a fraction, asked of integers. -/
theorem pow_toNat_le_iff (hden : 0 < den) (e : ℤ) :
    den * Nat.pow 2 e.toNat ≤ num * Nat.pow 2 (-e).toNat ↔ (2 : ℚ) ^ e ≤ num / den := by
  have hden' : (0 : ℚ) < den := by exact_mod_cast hden
  have hpow : (0 : ℚ) < 2 ^ (-e).toNat := by positivity
  rw [← pow_toNat_div, div_le_div_iff₀ hpow hden', mul_comm ((2 : ℚ) ^ e.toNat)]
  simp only [Nat.pow_eq]
  exact_mod_cast Iff.rfl

/-- **The power of two below a fraction.** -/
theorem floorLog2_spec (hnum : 0 < num) (hden : 0 < den) :
    (2 : ℚ) ^ floorLog2 num den ≤ num / den ∧ (num : ℚ) / den < 2 ^ (floorLog2 num den + 1) := by
  have hden' : (0 : ℚ) < den := by exact_mod_cast hden
  have htwo : (2 : ℚ) ≠ 0 := two_ne_zero
  -- The logarithms of both terms leave two powers to choose from.
  have hnumLow : (2 : ℚ) ^ (num.log2 : ℤ) ≤ num := by
    exact_mod_cast Nat.log2_self_le hnum.ne'
  have hnumHigh : (num : ℚ) < 2 ^ ((num.log2 : ℤ) + 1) := by
    exact_mod_cast Nat.lt_log2_self (n := num)
  have hdenLow : (2 : ℚ) ^ (den.log2 : ℤ) ≤ den := by
    exact_mod_cast Nat.log2_self_le hden.ne'
  have hdenHigh : (den : ℚ) < 2 ^ ((den.log2 : ℤ) + 1) := by
    exact_mod_cast Nat.lt_log2_self (n := den)
  set e : ℤ := (num.log2 : ℤ) - den.log2 with he
  have hlow : (2 : ℚ) ^ (e - 1) ≤ num / den := by
    rw [le_div_iff₀ hden']
    calc (2 : ℚ) ^ (e - 1) * den ≤ 2 ^ (e - 1) * 2 ^ ((den.log2 : ℤ) + 1) := by gcongr
      _ = 2 ^ (num.log2 : ℤ) := by rw [← zpow_add₀ htwo]; congr 1; omega
      _ ≤ num := hnumLow
  have hhigh : (num : ℚ) / den < 2 ^ (e + 1) := by
    rw [div_lt_iff₀ hden']
    calc (num : ℚ) < 2 ^ ((num.log2 : ℤ) + 1) := hnumHigh
      _ = 2 ^ (e + 1) * 2 ^ (den.log2 : ℤ) := by rw [← zpow_add₀ htwo]; congr 1; omega
      _ ≤ 2 ^ (e + 1) * den := by gcongr
  unfold floorLog2
  simp only [← he, pow_toNat_le_iff hden]
  split
  · next h => exact ⟨h, hhigh⟩
  · next h => exact ⟨hlow, by rw [sub_add_cancel]; exact not_le.1 h⟩

/-- **An even number is reached by rounding from half a unit below it on.** -/
theorem le_roundHalfEven_iff (hden : 0 < den) {k : ℕ} (hk : k % 2 = 0) :
    k ≤ roundHalfEven num den ↔ (k : ℚ) ≤ num / den + 1 / 2 := by
  have hden' : (0 : ℚ) < den := by exact_mod_cast hden
  have hcast : (k : ℚ) ≤ num / den + 1 / 2 ↔ 2 * (k * den) ≤ 2 * num + den := by
    rw [div_add_div _ _ hden'.ne' two_ne_zero, le_div_iff₀ (by positivity), ← Nat.cast_le (α := ℚ)]
    push_cast
    constructor <;> intro h <;> linarith
  rw [hcast]
  have hdiv := Nat.div_add_mod num den
  have hmod := Nat.mod_lt num hden
  unfold roundHalfEven
  simp only
  set quotient := num / den
  set rest := num % den
  rcases Nat.lt_trichotomy k (quotient + 1) with hlt | rfl | hgt
  · -- The quotient is no less already.
    have hmul := Nat.mul_le_mul_right den (Nat.le_of_lt_succ hlt)
    rw [mul_comm quotient] at hmul
    refine iff_of_true ?_ (by omega)
    split <;> [skip; split] <;> omega
  · rw [Nat.add_mul, Nat.one_mul, mul_comm quotient]
    split
    · omega
    · split <;> omega
  · -- Not even the quotient and one is as much.
    have hmul := Nat.mul_le_mul_right den (Nat.succ_le_of_lt hgt)
    rw [Nat.succ_mul, Nat.add_mul, mul_comm quotient] at hmul
    refine iff_of_false ?_ (by omega)
    split <;> [skip; split] <;> omega

/-! ## The greatest numbers -/

/-- Half-way from the greatest finite number to the power of two above it. -/
def overflow : ℚ := 2 ^ 1024 - 2 ^ 970

theorem overflow_eq : overflow = (2 ^ 53 - 1 / 2) * 2 ^ (971 : ℤ) := by
  have hhigh : (2 : ℚ) ^ 1024 = 2 ^ 53 * 2 ^ 971 := by rw [← pow_add]
  have hlow : (2 : ℚ) ^ 970 = 1 / 2 * 2 ^ 971 := by
    rw [pow_succ' 2 970, one_div, inv_mul_cancel_left₀ two_ne_zero]
  rw [overflow, hhigh, hlow, sub_mul]
  rfl

theorem pow_lt_overflow : (2 : ℚ) ^ (1023 : ℤ) < overflow := by
  have hlow : (2 : ℚ) ^ 970 < 2 ^ 1023 := pow_lt_pow_right₀ one_lt_two (by decide)
  have hhigh : (2 : ℚ) ^ 1024 = 2 ^ 1023 + 2 ^ 1023 := by
    rw [← two_mul, ← pow_succ']
  calc (2 : ℚ) ^ (1023 : ℤ) = 2 ^ 1024 - 2 ^ 1023 := by
        rw [hhigh, add_sub_cancel_right]; exact zpow_natCast 2 1023
    _ < overflow := sub_lt_sub_left hlow _

theorem overflow_le_pow : overflow ≤ 2 ^ (1024 : ℤ) := by
  calc overflow ≤ 2 ^ 1024 := sub_le_self _ (by positivity)
    _ = 2 ^ (1024 : ℤ) := (zpow_natCast 2 1024).symm

/-- The fraction in units of the last place of its significand. -/
theorem scaled_eq (num den : ℕ) (e : ℤ) :
    ((num * Nat.pow 2 (-e).toNat : ℕ) : ℚ) / (den * Nat.pow 2 e.toNat : ℕ) =
      num / den / 2 ^ e := by
  rw [← pow_toNat_div 2 e]
  simp only [Nat.pow_eq]
  push_cast
  field_simp

/-- **A fraction is rounded to less than the infinity exactly when it is less than `overflow`.** -/
theorem nearestBits_lt_iff (hden : 0 < den) :
    nearestBits num den < infinityBits ↔ (num : ℚ) / den < overflow := by
  unfold nearestBits
  split
  · next h =>
    rw [h, Nat.cast_zero, zero_div]
    exact iff_of_true (by decide) (lt_trans (by positivity) pow_lt_overflow)
  next hnum =>
  obtain ⟨hlow, hhigh⟩ := floorLog2_spec (Nat.pos_of_ne_zero hnum) hden
  set log := floorLog2 num den
  set q : ℚ := num / den
  simp only
  set e := max (log - 52) (-1074) with he
  have hscaled : 0 < den * Nat.pow 2 e.toNat := Nat.mul_pos hden (Nat.two_pow_pos _)
  have hrounded (k : ℕ) (hk : k % 2 = 0) :
      k ≤ roundHalfEven (num * Nat.pow 2 (-e).toNat) (den * Nat.pow 2 e.toNat) ↔ _ :=
    le_roundHalfEven_iff hscaled hk
  simp only [scaled_eq] at hrounded
  set rounded := roundHalfEven (num * Nat.pow 2 (-e).toNat) (den * Nat.pow 2 e.toNat)
  have hunit : (0 : ℚ) < 2 ^ e := zpow_pos two_pos e
  rcases lt_trichotomy log 1023 with hlt | heq | hgt
  · have hq : q / 2 ^ e < 2 ^ 53 := by
      rw [div_lt_iff₀ hunit, ← zpow_natCast, ← zpow_add₀ two_ne_zero]
      refine hhigh.trans_le (zpow_le_zpow_right₀ one_le_two ?_)
      push_cast
      omega
    have hle : ¬ 2 ^ 53 + 2 ≤ rounded := by
      rw [hrounded _ (by decide)]
      push_cast
      linarith
    refine iff_of_true ?_ ?_
    · unfold infinityBits maxExponent exponentUnit
      omega
    · refine hhigh.trans_le (le_trans ?_ pow_lt_overflow.le)
      exact zpow_le_zpow_right₀ one_le_two (by omega)
  · have he' : e = 971 := by omega
    have hround := hrounded (2 ^ 53) (by decide)
    have hbits : min ((e + 1074).toNat * exponentUnit + rounded) infinityBits < infinityBits ↔
        ¬ 2 ^ 53 ≤ rounded := by
      rw [he']
      unfold infinityBits maxExponent exponentUnit
      omega
    rw [hbits, hround, not_le, overflow_eq, ← he', ← div_lt_iff₀ hunit]
    push_cast
    constructor <;> intro h <;> linarith
  · have hq : (2 : ℚ) ^ 52 ≤ q / 2 ^ e := by
      rw [le_div_iff₀ hunit, ← zpow_natCast, ← zpow_add₀ two_ne_zero]
      refine le_trans (zpow_le_zpow_right₀ one_le_two ?_) hlow
      push_cast
      omega
    have hle : 2 ^ 52 ≤ rounded := by
      rw [hrounded _ (by decide)]
      push_cast
      linarith
    refine iff_of_false ?_ (not_lt.2 ?_)
    · unfold infinityBits maxExponent exponentUnit
      omega
    · exact overflow_le_pow.trans ((zpow_le_zpow_right₀ one_le_two (by omega)).trans hlow)

end Fractions

/-! ## Nearest numbers -/

theorem nearestBits_le (num den : ℕ) : nearestBits num den ≤ infinityBits := by
  unfold nearestBits
  split
  · exact Nat.zero_le _
  · exact Nat.min_le_right _ _

section Nearest

variable (negative : Bool) (num den : ℕ)

/-- The bits of a nearest number without its sign. -/
theorem rank_nearest : (nearest negative num den).rank = nearestBits num den := by
  have hle := nearestBits_le num den
  unfold infinityBits maxExponent exponentUnit at hle
  unfold rank nearest signUnit
  change (UInt64.ofNat _).toNat % _ = _
  rw [UInt64.toNat_ofNat_of_lt' (by rw [UInt64.size]; cases negative <;> simp <;> omega)]
  cases negative <;> simp only [if_true, if_false, Bool.false_eq_true] <;> omega

/-- A nearest number is a number. -/
theorem isNaN_nearest : (nearest negative num den).isNaN = false := by
  have hle := nearestBits_le num den
  have hfield := rank_div (nearest negative num den)
  have hfraction := rank_mod (nearest negative num den)
  rw [rank_nearest] at hfield hfraction
  refine Bool.eq_false_iff.2 fun h => ?_
  simp only [isNaN, Bool.and_eq_true, beq_iff_eq, bne_iff_ne] at h
  unfold infinityBits maxExponent exponentUnit at *
  omega

theorem isFinite_nearest_iff {den : ℕ} (hden : 0 < den) :
    (nearest negative num den).isFinite = true ↔ (num : ℚ) / den < overflow := by
  have hle := nearestBits_le num den
  have hfield := rank_div (nearest negative num den)
  rw [rank_nearest] at hfield
  rw [← nearestBits_lt_iff hden, isFinite, bne_iff_ne, ← hfield]
  unfold infinityBits maxExponent exponentUnit at *
  omega

/-- **A decimal is rounded to a finite number exactly when its magnitude is below `overflow`.** -/
theorem isFinite_ofDecimal_iff (digits : ℕ) (exponent : ℤ) :
    (ofDecimal negative digits exponent).isFinite = true ↔
      (digits : ℚ) * 10 ^ exponent < overflow := by
  have hpow : 0 < Nat.pow 10 (-exponent).toNat := Nat.pow_pos (by decide)
  rw [ofDecimal, isFinite_nearest_iff negative _ hpow, ← pow_toNat_div 10 exponent]
  simp only [Nat.pow_eq]
  push_cast
  rw [mul_div_assoc]

theorem isNaN_ofDecimal (digits : ℕ) (exponent : ℤ) :
    (ofDecimal negative digits exponent).isNaN = false :=
  isNaN_nearest ..

end Nearest

end RequestQuery.Binary64
