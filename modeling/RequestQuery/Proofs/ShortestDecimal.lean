import Mathlib.Algebra.Order.Field.Power
import Mathlib.Algebra.Order.Field.Rat
import Mathlib.Tactic.FieldSimp
import Mathlib.Tactic.Linarith
import Mathlib.Tactic.LinearCombination
import Mathlib.Tactic.NormNum
import Mathlib.Tactic.Positivity
import Mathlib.Tactic.Ring
import RequestQuery.Binary64.Shortest

/-!
# Shortest decimals

The shortest decimal of a number lies in the interval that rounds to it, and no other magnitude has
a point of that interval, so a number can be told by its shortest decimal.

The magnitudes of finite numbers are numbered by their bits, in their order (`rank`, `unitsAt`). The
ends of an interval are half-way to the neighbours, so two intervals can only meet where the ranks
are neighbours, in an end that belongs to both; but neighbours differ in the parity of their
significands, and only even ones have their ends. Seventeen digits are always enough, since then the
grid of decimals is finer than the interval.

* `Interval.Contains`: the points of an interval, as rational numbers.
* `rank_eq_of_contains`: a point lies in the intervals of one magnitude at most.
* `contains_shortest`: the shortest decimal lies in the interval.
* `eq_of_shortest`: a number is told by its sign and its shortest decimal.
-/

namespace RequestQuery.Binary64

/-! ## Magnitudes by rank -/

/-- The bits of a number without its sign. -/
def rank (x : Binary64) : ℕ := x.bits.toNat % signUnit

/-- The distance from the magnitude of a rank to the next one, in units of the least magnitude. -/
def gapAt (r : ℕ) : ℕ := 2 ^ (r / exponentUnit - 1)

/-- The integer that is multiplied with the gap in the magnitude of a rank. -/
def significandAt (r : ℕ) : ℕ :=
  if r / exponentUnit = 0 then r % exponentUnit else r % exponentUnit + exponentUnit

/-- The magnitude of a rank, in units of the least one. -/
def unitsAt (r : ℕ) : ℕ := significandAt r * gapAt r

theorem unitsAt_succ (r : ℕ) : unitsAt (r + 1) = unitsAt r + gapAt r := by
  unfold unitsAt significandAt gapAt
  by_cases hcarry : r % exponentUnit + 1 = exponentUnit
  · have hquot : (r + 1) / exponentUnit = r / exponentUnit + 1 := by
      unfold exponentUnit at *; omega
    have hrem : (r + 1) % exponentUnit = 0 := by unfold exponentUnit at *; omega
    rw [hquot, hrem]
    cases hr : r / exponentUnit with
    | zero => simp; omega
    | succ e =>
      have hsum : r % exponentUnit + exponentUnit + 1 = exponentUnit * 2 := by omega
      simp only [Nat.add_sub_cancel, Nat.succ_ne_zero, if_false]
      calc (0 + exponentUnit) * 2 ^ (e + 1) = exponentUnit * 2 * 2 ^ e := by ring
        _ = (r % exponentUnit + exponentUnit) * 2 ^ e + 2 ^ e := by rw [← hsum]; ring
  · have hquot : (r + 1) / exponentUnit = r / exponentUnit := by unfold exponentUnit at *; omega
    have hrem : (r + 1) % exponentUnit = r % exponentUnit + 1 := by
      unfold exponentUnit at *; omega
    rw [hquot, hrem]
    split <;> ring

theorem gapAt_pos (r : ℕ) : 0 < gapAt r := Nat.two_pow_pos _

theorem unitsAt_strictMono : StrictMono unitsAt :=
  strictMono_nat_of_lt_succ fun r => by
    rw [unitsAt_succ]
    exact Nat.lt_add_of_pos_right (gapAt_pos r)

theorem significandAt_succ_mod_two (r : ℕ) : (significandAt (r + 1) + significandAt r) % 2 = 1 := by
  unfold significandAt exponentUnit
  split <;> split <;> omega

section Rank

variable (x : Binary64)

theorem rank_div : x.rank / exponentUnit = x.exponentField := by
  unfold rank exponentField signUnit exponentUnit maxExponent
  omega

theorem rank_mod : x.rank % exponentUnit = x.fraction := by
  unfold rank fraction signUnit exponentUnit
  omega

theorem significandAt_rank : significandAt x.rank = x.significand := by
  rw [significandAt, rank_div, rank_mod, significand]

theorem gapAt_rank : gapAt x.rank = 2 ^ (x.exponentField - 1) := by
  rw [gapAt, rank_div]

end Rank

/-- Two numbers with one sign and one rank are the same. -/
theorem eq_of_rank {x y : Binary64} (hsign : x.isNegative = y.isNegative)
    (hrank : x.rank = y.rank) : x = y := by
  have hx := x.bits.toNat_lt
  have hy := y.bits.toNat_lt
  have hiff : signUnit ≤ x.bits.toNat ↔ signUnit ≤ y.bits.toNat := by
    simpa [isNegative] using hsign
  have hbits : x.bits.toNat = y.bits.toNat := by
    simp only [rank, signUnit] at *
    omega
  cases x
  cases y
  exact congrArg Binary64.mk (UInt64.toNat_inj.1 hbits)

/-! ## Intervals -/

/-- A power with a natural exponent over one with the opposite exponent. -/
theorem pow_toNat_div (b : ℚ) (k : ℤ) : b ^ k.toNat / b ^ (-k).toNat = b ^ k := by
  cases k with
  | ofNat n => simp
  | negSucc n => simp [zpow_negSucc, Int.neg_negSucc]

/-- The points of an interval, with its ends when it is closed. -/
def Interval.Contains (i : Interval) (q : ℚ) : Prop :=
  if i.closed then (i.low : ℚ) / i.den ≤ q ∧ q ≤ (i.high : ℚ) / i.den
  else (i.low : ℚ) / i.den < q ∧ q < (i.high : ℚ) / i.den

/-- A quarter of the least magnitude. -/
def quarter : ℚ := 2 ^ (-1076 : ℤ)

theorem quarter_pos : 0 < quarter := zpow_pos two_pos _

section Ends

variable (x : Binary64)

theorem interval_den_pos : 0 < x.interval.den := Nat.two_pow_pos _

/-- The unit in which the fields of an interval count: a quarter of the gap at the number. -/
theorem intervalUnit : ((Nat.pow 2 (x.scale - 2).toNat : ℕ) : ℚ) / x.interval.den =
    gapAt x.rank * quarter := by
  have hscale : x.scale - 2 = ((x.exponentField - 1 : ℕ) : ℤ) + -1076 := by
    unfold scale
    omega
  have hneg : 2 - x.scale = -(x.scale - 2) := by ring
  have hden : x.interval.den = 2 ^ (-(x.scale - 2)).toNat := by rw [← hneg]; rfl
  rw [hden, Nat.pow_eq, Nat.cast_pow, Nat.cast_pow, Nat.cast_ofNat, pow_toNat_div, hscale,
    zpow_add₀ two_ne_zero, zpow_natCast, gapAt_rank, Nat.cast_pow, Nat.cast_ofNat, quarter]

theorem interval_value : (x.interval.value : ℚ) / x.interval.den =
    4 * unitsAt x.rank * quarter := by
  have hvalue : x.interval.value = 4 * x.significand * Nat.pow 2 (x.scale - 2).toNat := rfl
  rw [hvalue, Nat.cast_mul, mul_div_assoc, intervalUnit, unitsAt, significandAt_rank]
  push_cast
  ring

/-- The upper end is half-way to the next magnitude. -/
theorem interval_high : (x.interval.high : ℚ) / x.interval.den =
    2 * (unitsAt x.rank + unitsAt (x.rank + 1)) * quarter := by
  have hhigh : x.interval.high = (4 * x.significand + 2) * Nat.pow 2 (x.scale - 2).toNat := rfl
  rw [hhigh, Nat.cast_mul, mul_div_assoc, intervalUnit, unitsAt_succ, unitsAt, significandAt_rank]
  push_cast
  ring

variable {x}

/-- Below a power of two the gap is half as wide. -/
theorem gapAt_rank_eq {r : ℕ} (hr : x.rank = r + 1) :
    (if x.fraction = 0 ∧ 1 < x.exponentField then 1 else 2) * gapAt x.rank = 2 * gapAt r := by
  have hfield := rank_div x
  have hfraction := rank_mod x
  rw [gapAt_rank, gapAt]
  split
  · next h =>
    have hquot : r / exponentUnit = x.exponentField - 1 := by unfold exponentUnit at *; omega
    obtain ⟨e, he⟩ : ∃ e, x.exponentField = e + 2 := ⟨x.exponentField - 2, by omega⟩
    rw [hquot, he, Nat.one_mul, Nat.add_sub_assoc (by decide), Nat.add_sub_assoc (by decide)]
    exact (pow_succ' 2 e)
  · next h =>
    have hquot : r / exponentUnit - 1 = x.exponentField - 1 := by unfold exponentUnit at *; omega
    rw [hquot]

theorem significand_pos {r : ℕ} (hr : x.rank = r + 1) : 0 < x.significand := by
  have hfield := rank_div x
  have hfraction := rank_mod x
  unfold significand
  split
  · unfold exponentUnit at *; omega
  · unfold exponentUnit; omega

/-- The lower end is half-way to the magnitude before. -/
theorem interval_low {r : ℕ} (hr : x.rank = r + 1) : (x.interval.low : ℚ) / x.interval.den =
    2 * (unitsAt r + unitsAt x.rank) * quarter := by
  have hgap := gapAt_rank_eq hr
  have hpos := significand_pos hr
  have hunits : unitsAt r + gapAt r = x.significand * gapAt x.rank := by
    rw [← unitsAt_succ, ← hr, unitsAt, significandAt_rank]
  set below := if x.fraction = 0 ∧ 1 < x.exponentField then 1 else 2 with hbelow
  have hle : below ≤ 4 * x.significand := by
    have : below ≤ 2 := by rw [hbelow]; split <;> decide
    omega
  have hlow : x.interval.low = (4 * x.significand - below) * Nat.pow 2 (x.scale - 2).toNat := rfl
  rw [hlow, Nat.cast_mul, mul_div_assoc, intervalUnit, Nat.cast_sub hle]
  have hgap' : (below : ℚ) * gapAt x.rank = 2 * gapAt r := by exact_mod_cast hgap
  have hunits' : (unitsAt r : ℚ) + gapAt r = x.significand * gapAt x.rank := by
    exact_mod_cast hunits
  have hrank : (unitsAt x.rank : ℚ) = x.significand * gapAt x.rank := by
    rw [unitsAt, significandAt_rank, Nat.cast_mul]
  rw [hrank, ← mul_assoc]
  push_cast
  linear_combination -quarter * hgap' - 2 * quarter * hunits'

theorem interval_lt_high (x : Binary64) :
    (x.interval.value : ℚ) / x.interval.den < x.interval.high / x.interval.den := by
  have hgap : (0 : ℚ) < gapAt x.rank := by exact_mod_cast gapAt_pos x.rank
  rw [interval_value, interval_high, unitsAt_succ]
  refine mul_lt_mul_of_pos_right ?_ quarter_pos
  push_cast
  linarith

theorem interval_low_lt {r : ℕ} (hr : x.rank = r + 1) :
    (x.interval.low : ℚ) / x.interval.den < x.interval.value / x.interval.den := by
  have hgap : (0 : ℚ) < gapAt r := by exact_mod_cast gapAt_pos r
  rw [interval_value, interval_low hr, hr, unitsAt_succ]
  refine mul_lt_mul_of_pos_right ?_ quarter_pos
  push_cast
  linarith

end Ends

/-! ## Points of two intervals -/

/-- A point between two half-way points. -/
theorem bounds_of_contains {x : Binary64} {r : ℕ} (hr : x.rank = r + 1) {q : ℚ}
    (h : x.interval.Contains q) :
    2 * (unitsAt r + unitsAt x.rank : ℚ) * quarter ≤ q ∧
      q ≤ 2 * (unitsAt x.rank + unitsAt (x.rank + 1) : ℚ) * quarter := by
  unfold Interval.Contains at h
  rw [interval_low hr, interval_high] at h
  split at h
  · exact h
  · exact ⟨h.1.le, h.2.le⟩

/-- An end of an interval belongs to it only when the significand is even. -/
theorem even_of_contains {x : Binary64} {q : ℚ} (h : x.interval.Contains q)
    (hend : q = (x.interval.low : ℚ) / x.interval.den ∨
      q = (x.interval.high : ℚ) / x.interval.den) :
    x.significand % 2 = 0 := by
  have hclosed : x.interval.closed = decide (x.significand % 2 = 0) := rfl
  unfold Interval.Contains at h
  split at h
  · next hc => exact of_decide_eq_true (hclosed ▸ hc)
  · rcases hend with rfl | rfl
    · exact absurd h.1 (lt_irrefl _)
    · exact absurd h.2 (lt_irrefl _)

/-- Intervals of different magnitudes do not meet: they could do so only in an end of both, but of
two neighbours one has an odd significand. -/
theorem not_contains_of_rank_lt {x y : Binary64} {r r' : ℕ} (hx : x.rank = r + 1)
    (hy : y.rank = r' + 1) (hlt : x.rank < y.rank) {q : ℚ} (hxq : x.interval.Contains q) :
    ¬ y.interval.Contains q := by
  intro hyq
  have hupper := (bounds_of_contains hx hxq).2
  have hlower := (bounds_of_contains hy hyq).1
  have hle : x.rank ≤ r' := by omega
  have h₁ : unitsAt x.rank ≤ unitsAt r' := unitsAt_strictMono.monotone hle
  have h₂ : unitsAt (x.rank + 1) ≤ unitsAt y.rank :=
    unitsAt_strictMono.monotone (by omega)
  have h₁' : (unitsAt x.rank : ℚ) ≤ unitsAt r' := by exact_mod_cast h₁
  have h₂' : (unitsAt (x.rank + 1) : ℚ) ≤ unitsAt y.rank := by exact_mod_cast h₂
  have hsum : (unitsAt r' + unitsAt y.rank : ℚ) ≤ unitsAt x.rank + unitsAt (x.rank + 1) := by
    have := hlower.trans hupper
    have := le_of_mul_le_mul_right this quarter_pos
    linarith
  have hunits : (unitsAt x.rank : ℚ) = unitsAt r' := by linarith
  have hrank : x.rank = r' := unitsAt_strictMono.injective (by exact_mod_cast hunits)
  have hxend : q = (x.interval.high : ℚ) / x.interval.den := by
    rw [interval_high]
    refine le_antisymm hupper ?_
    rwa [← hrank, hy, ← hrank] at hlower
  have hyend : q = (y.interval.low : ℚ) / y.interval.den := by
    rw [hxend, interval_high, interval_low hy, hy, hrank]
  have hxeven := even_of_contains hxq (.inr hxend)
  have hyeven := even_of_contains hyq (.inl hyend)
  have hodd := significandAt_succ_mod_two x.rank
  rw [hrank, ← hy, ← hrank, significandAt_rank, significandAt_rank] at hodd
  omega

/-- **A point lies in the interval of one magnitude at most.** -/
theorem rank_eq_of_contains {x y : Binary64} {r r' : ℕ} (hx : x.rank = r + 1)
    (hy : y.rank = r' + 1) {q : ℚ} (hxq : x.interval.Contains q) (hyq : y.interval.Contains q) :
    x.rank = y.rank := by
  rcases Nat.lt_trichotomy x.rank y.rank with hlt | heq | hgt
  · exact absurd hyq (not_contains_of_rank_lt hx hy hlt hxq)
  · exact heq
  · exact absurd hxq (not_contains_of_rank_lt hy hx hgt hyq)

/-! ## Decimals on a grid -/

theorem lt_pow_length_toDigits (n : ℕ) : n < 10 ^ (Nat.toDigits 10 n).length :=
  (Nat.length_toDigits_le_iff (by decide) (List.length_pos_iff.2 Nat.toDigits_ne_nil)).1 (le_refl _)

theorem pow_length_toDigits_le {n : ℕ} (hn : 0 < n) :
    10 ^ ((Nat.toDigits 10 n).length - 1) ≤ n := by
  by_contra hlt
  have hlen : 0 < (Nat.toDigits 10 n).length := List.length_pos_iff.2 Nat.toDigits_ne_nil
  rcases Nat.eq_zero_or_pos ((Nat.toDigits 10 n).length - 1) with hzero | hpos
  · rw [hzero] at hlt
    omega
  · have := (Nat.length_toDigits_le_iff (by decide) hpos).2 (not_le.1 hlt)
    omega

/-- The decimal point stands at most one place too far to the right of the first digit. -/
theorem zpow_decimalPoint_le {num den : ℕ} (hnum : 0 < num) (hden : 0 < den) :
    (10 : ℚ) ^ (decimalPoint num den - 1) ≤ num / den := by
  rw [le_div_iff₀ (by exact_mod_cast hden)]
  unfold decimalPoint
  split
  · next hle =>
    have hquot : 0 < num / den := Nat.div_pos hle hden
    have hlen : 0 < (Nat.toDigits 10 (num / den)).length :=
      List.length_pos_iff.2 Nat.toDigits_ne_nil
    have hpow := pow_length_toDigits_le hquot
    have hmul : 10 ^ ((Nat.toDigits 10 (num / den)).length - 1) * den ≤ num :=
      (Nat.mul_le_mul_right den hpow).trans (Nat.div_mul_le_self num den)
    have hexp : ((Nat.toDigits 10 (num / den)).length : ℤ) - 1 =
        ((Nat.toDigits 10 (num / den)).length - 1 : ℕ) := by omega
    rw [hexp, zpow_natCast]
    exact_mod_cast hmul
  · next hlt =>
    set c := (den + num - 1) / num with hc
    have hlen := lt_pow_length_toDigits (c - 1)
    set len := (Nat.toDigits 10 (c - 1)).length
    have hceil : den ≤ num * c := by
      have hmod := Nat.div_add_mod (den + num - 1) num
      have hrem := Nat.mod_lt (den + num - 1) hnum
      rw [← hc] at hmod
      omega
    have hmul : den ≤ num * 10 ^ len := hceil.trans (Nat.mul_le_mul_left num (by omega))
    have hexp : (1 - (len : ℤ)) - 1 = -(len : ℤ) := by ring
    rw [hexp, zpow_neg, zpow_natCast, inv_mul_le_iff₀ (by positivity), mul_comm]
    exact_mod_cast hmul

/-- Rounding gives one of the two neighbours. -/
theorem roundHalfEven_cases (num den : ℕ) :
    roundHalfEven num den = num / den ∨ roundHalfEven num den = num / den + 1 := by
  unfold roundHalfEven
  simp only
  split
  · exact .inl rfl
  · split
    · exact .inr rfl
    · omega

namespace Interval

variable {i : Interval}

/-- Whether a decimal lies in an interval, asked of integers. -/
theorem has_iff (hden : 0 < i.den) (a : ℕ) {up times : ℕ} (htimes : 0 < times) :
    i.has (a * (i.den * up)) times = true ↔ i.Contains (a * (up / times)) := by
  have hden' : (i.den : ℚ) ≠ 0 := by exact_mod_cast hden.ne'
  have htimes' : (times : ℚ) ≠ 0 := by exact_mod_cast htimes.ne'
  have hcommon : (0 : ℚ) < i.den * times := by exact_mod_cast Nat.mul_pos hden htimes
  have hend (m : ℕ) : (m : ℚ) / i.den = (m * times : ℕ) / (i.den * times) := by
    push_cast
    field_simp
  have hdecimal : (a : ℚ) * (up / times) = (a * (i.den * up) : ℕ) / (i.den * times) := by
    push_cast
    field_simp
  unfold has Contains
  rw [hend, hend, hdecimal]
  simp only [div_le_div_iff_of_pos_right hcommon, div_lt_div_iff_of_pos_right hcommon,
    Nat.cast_le, Nat.cast_lt]
  split <;> simp only [Bool.and_eq_true, decide_eq_true_eq]

theorem contains_of_lt {q : ℚ} (hlow : (i.low : ℚ) / i.den < q) (hhigh : q < i.high / i.den) :
    i.Contains q := by
  unfold Contains
  split
  · exact ⟨hlow.le, hhigh.le⟩
  · exact ⟨hlow, hhigh⟩

/-- The step of the grid of decimals with `n` digits, as a fraction of natural numbers. -/
theorem zpow_grid (point : ℤ) (n : ℕ) : (10 : ℚ) ^ (point - n : ℤ) =
    ((10 ^ (point - n).toNat : ℕ) : ℚ) / (10 ^ ((n : ℤ) - point).toNat : ℕ) := by
  have hneg : (n : ℤ) - point = -(point - n) := by ring
  rw [hneg, Nat.cast_pow, Nat.cast_pow, Nat.cast_ofNat, pow_toNat_div]

/-- What is found on a grid lies in the interval. -/
theorem contains_of_onGrid? (hden : 0 < i.den) {point : ℤ} {n d : ℕ}
    (h : i.onGrid? point n = some d) : i.Contains (d * 10 ^ (point - n : ℤ)) := by
  rw [zpow_grid, ← has_iff hden d (Nat.pow_pos (by decide))]
  unfold onGrid? at h
  simp only [Nat.pow_eq] at h
  split at h
  · next hbelow _ => cases h; exact hbelow
  · next _ habove => cases h; exact habove
  · next hbelow habove =>
    cases h
    rcases roundHalfEven_cases _ _ with hr | hr <;> rw [hr]
    · exact hbelow
    · exact habove
  · cases h

/-- A grid that is finer than an interval has a point in it. -/
theorem isSome_onGrid? (hden : 0 < i.den) {point : ℤ} {n : ℕ}
    (hlow : (i.low : ℚ) / i.den < i.value / i.den)
    (hhigh : (i.value : ℚ) / i.den < i.high / i.den)
    (hfine : (10 : ℚ) ^ (point - n : ℤ) < i.high / i.den - i.low / i.den) :
    (i.onGrid? point n).isSome = true := by
  rw [zpow_grid] at hfine
  unfold onGrid?
  simp only [Nat.pow_eq]
  have htimes : 0 < 10 ^ ((n : ℤ) - point).toNat := Nat.pow_pos (by decide)
  have hup : 0 < 10 ^ (point - n).toNat := Nat.pow_pos (by decide)
  generalize 10 ^ ((n : ℤ) - point).toNat = times at *
  generalize 10 ^ (point - n).toNat = up at *
  set below := i.value * times / (i.den * up) with hbelow
  have hden' : (0 : ℚ) < i.den := by exact_mod_cast hden
  have htimes' : (0 : ℚ) < times := by exact_mod_cast htimes
  have hle : (below : ℚ) * (up / times) ≤ i.value / i.den := by
    have h : below * (i.den * up) ≤ i.value * times := Nat.div_mul_le_self _ _
    have h' : (below : ℚ) * (i.den * up) ≤ i.value * times := by exact_mod_cast h
    rw [le_div_iff₀ hden', ← mul_div_assoc, div_mul_eq_mul_div, div_le_iff₀ htimes']
    linarith
  have hlt : (i.value : ℚ) / i.den < ((below + 1 : ℕ) : ℚ) * (up / times) := by
    have h : i.value * times < (below + 1) * (i.den * up) :=
      (Nat.div_lt_iff_lt_mul (Nat.mul_pos hden hup)).1 (Nat.lt_succ_self below)
    have h' : (i.value : ℚ) * times < ((below + 1 : ℕ) : ℚ) * (i.den * up) := by exact_mod_cast h
    rw [div_lt_iff₀ hden', ← mul_div_assoc, div_mul_eq_mul_div, lt_div_iff₀ htimes']
    linarith
  -- If neither neighbour lies in the interval, the whole interval lies between them.
  by_contra hnone
  have hnotBelow : ¬ i.Contains (below * (up / times)) := fun h => by
    rw [← has_iff hden below htimes] at h
    rw [h] at hnone
    split at hnone <;> simp_all
  have hnotAbove : ¬ i.Contains ((below + 1 : ℕ) * (up / times)) := fun h => by
    rw [← has_iff hden (below + 1) htimes] at h
    rw [h] at hnone
    split at hnone <;> simp_all
  have h₁ : (below : ℚ) * (up / times) ≤ i.low / i.den :=
    not_lt.1 fun h => hnotBelow (contains_of_lt h (hle.trans_lt hhigh))
  have h₂ : (i.high : ℚ) / i.den ≤ ((below + 1 : ℕ) : ℚ) * (up / times) :=
    not_lt.1 fun h => hnotAbove (contains_of_lt (hlow.trans hlt) h)
  push_cast at h₂
  linarith

end Interval

/-! ## The shortest decimal -/

section Shortest

variable {x : Binary64} {r : ℕ}

/-- A magnitude is less than ten to the power sixteen times the mean of the gaps around it. -/
theorem unitsAt_rank_lt (hr : x.rank = r + 1) :
    2 * unitsAt x.rank < 10 ^ 16 * (gapAt r + gapAt x.rank) := by
  have hgap := gapAt_rank_eq hr
  have hpos := gapAt_pos r
  have hfraction : x.fraction < exponentUnit := Nat.mod_lt _ (by decide)
  rw [unitsAt, significandAt_rank, ← Nat.mul_assoc]
  split at hgap
  · next h =>
    have hsignificand : x.significand = exponentUnit := by
      rw [significand, if_neg (by omega), h.1, Nat.zero_add]
    rw [hsignificand, exponentUnit]
    omega
  · have hsignificand : x.significand < 2 * exponentUnit := by
      unfold significand
      split <;> omega
    have hgap' : gapAt x.rank = gapAt r := by omega
    rw [hgap', ← Nat.two_mul, ← Nat.mul_assoc]
    refine Nat.mul_lt_mul_of_pos_right ?_ hpos
    unfold exponentUnit at hsignificand
    omega

/-- Seventeen digits are enough: a unit in the last of them is less than the interval is wide. -/
theorem grid_fine (hr : x.rank = r + 1) :
    (10 : ℚ) ^ (decimalPoint x.interval.value x.interval.den - (17 : ℕ) : ℤ) <
      (x.interval.high : ℚ) / x.interval.den - x.interval.low / x.interval.den := by
  have hvalue : 0 < x.interval.value :=
    Nat.mul_pos (Nat.mul_pos (by decide) (significand_pos hr)) (Nat.two_pow_pos _)
  have hpoint := zpow_decimalPoint_le hvalue (interval_den_pos x)
  set point := decimalPoint x.interval.value x.interval.den
  have hshift : (10 : ℚ) ^ (point - (17 : ℕ) : ℤ) * 10 ^ 16 = 10 ^ (point - 1) := by
    rw [← zpow_natCast, ← zpow_add₀ (by norm_num)]
    congr 1
    push_cast
    ring
  have hunits : (2 : ℚ) * unitsAt x.rank < 10 ^ 16 * (gapAt r + gapAt x.rank) := by
    exact_mod_cast unitsAt_rank_lt hr
  have hnext : (unitsAt (x.rank + 1) : ℚ) = unitsAt x.rank + gapAt x.rank := by
    exact_mod_cast unitsAt_succ x.rank
  have hprevious : (unitsAt x.rank : ℚ) = unitsAt r + gapAt r := by
    rw [hr]
    exact_mod_cast unitsAt_succ r
  rw [interval_value] at hpoint
  rw [interval_high, interval_low hr, hnext]
  have hscaled := mul_lt_mul_of_pos_right hunits quarter_pos
  have hpower : (0 : ℚ) < 10 ^ 16 := by norm_num
  refine lt_of_mul_lt_mul_right ?_ hpower.le
  rw [hshift]
  calc (10 : ℚ) ^ (point - 1) ≤ 4 * unitsAt x.rank * quarter := hpoint
    _ = 2 * (2 * unitsAt x.rank * quarter) := by ring
    _ < 2 * (10 ^ 16 * (gapAt r + gapAt x.rank) * quarter) := by linarith
    _ = _ := by rw [hprevious]; ring

end Shortest

/-! ### Trailing zeros -/

/-- The value of a decimal. -/
def Scientific.value (s : Scientific) : ℚ :=
  Nat.ofDigitChars 10 s.digits 0 * 10 ^ (s.exponent + 1 - s.digits.length)

theorem ofDigitChars_replicate_zero (k n : ℕ) :
    Nat.ofDigitChars 10 (List.replicate k '0') n = n * 10 ^ k := by
  induction k generalizing n with
  | zero => simp
  | succ k ih => rw [List.replicate_succ, Nat.ofDigitChars_cons, ih]; simp; ring

/-- Digits are those without the zeros at the end, and the zeros. -/
theorem dropTrailing_append (ds : List Char) :
    (ds.reverse.dropWhile (· == '0')).reverse ++
      List.replicate (ds.length - (ds.reverse.dropWhile (· == '0')).reverse.length) '0' = ds := by
  have hsplit : ds.reverse.takeWhile (· == '0') ++ ds.reverse.dropWhile (· == '0') = ds.reverse :=
    List.takeWhile_append_dropWhile
  have hzeros : ds.reverse.takeWhile (· == '0') =
      List.replicate (ds.reverse.takeWhile (· == '0')).length '0' :=
    List.eq_replicate_of_mem fun c hc =>
      beq_iff_eq.1 (List.all_eq_true.1 List.all_takeWhile c hc)
  have hlength := congrArg List.length hsplit
  rw [List.length_append, List.length_reverse] at hlength
  have hcount : ds.length - (ds.reverse.dropWhile (· == '0')).reverse.length =
      (ds.reverse.takeWhile (· == '0')).length := by
    rw [List.length_reverse]
    omega
  rw [hcount, ← List.reverse_replicate, ← hzeros, ← List.reverse_append, hsplit,
    List.reverse_reverse]

/-- Leaving out the zeros at the end of the digits does not change the value of a decimal. -/
theorem value_dropTrailing (d : ℕ) (k : ℤ) :
    Scientific.value
      { digits := ((Nat.toDigits 10 d).reverse.dropWhile (· == '0')).reverse
        exponent := k + ((Nat.toDigits 10 d).length : ℤ) - 1 } = d * 10 ^ k := by
  have hdigits := dropTrailing_append (Nat.toDigits 10 d)
  set ds := ((Nat.toDigits 10 d).reverse.dropWhile (· == '0')).reverse
  have hlength := congrArg List.length hdigits
  rw [List.length_append, List.length_replicate] at hlength
  set zeros := (Nat.toDigits 10 d).length - ds.length
  have hvalue : d = Nat.ofDigitChars 10 ds 0 * 10 ^ zeros := by
    rw [← ofDigitChars_replicate_zero, ← Nat.ofDigitChars_append, hdigits,
      Nat.ofDigitChars_ten_toDigits]
  have hexponent : k + ((Nat.toDigits 10 d).length : ℤ) - 1 + 1 - ds.length = zeros + k := by
    omega
  unfold Scientific.value
  rw [hexponent, zpow_add₀ (by norm_num), zpow_natCast, ← mul_assoc]
  congr 1
  exact_mod_cast hvalue.symm

/-- **The shortest decimal of a number lies in the interval that rounds to it.** -/
theorem contains_shortest {x : Binary64} {r : ℕ} (hr : x.rank = r + 1) :
    x.interval.Contains x.shortest.value := by
  have hden := interval_den_pos x
  set point := decimalPoint x.interval.value x.interval.den with hpoint
  set search : ℕ → Option (ℕ × ℕ) :=
    fun n => (x.interval.onGrid? point n).map fun d => (d, n) with hsearch
  have hsome : ((List.range' 1 17).findSome? search).isSome = true := by
    refine List.findSome?_isSome_iff.2 ⟨17, by decide, ?_⟩
    rw [hsearch, Option.isSome_map]
    exact Interval.isSome_onGrid? hden (interval_low_lt hr) (interval_lt_high x) (grid_fine hr)
  obtain ⟨⟨d, n⟩, hfound⟩ := Option.isSome_iff_exists.1 hsome
  obtain ⟨n', -, hn'⟩ := List.exists_of_findSome?_eq_some hfound
  obtain ⟨d', hgrid, he⟩ := Option.map_eq_some_iff.1 hn'
  cases he
  have hshortest : x.shortest =
      { digits := ((Nat.toDigits 10 d).reverse.dropWhile (· == '0')).reverse
        exponent := point - (n : ℤ) + ((Nat.toDigits 10 d).length : ℤ) - 1 } := by
    unfold shortest
    simp only [← hpoint, ← hsearch, hfound, Option.getD_some]
  rw [hshortest, value_dropTrailing]
  exact Interval.contains_of_onGrid? hden hgrid

/-- A number other than zero has a magnitude below its own. -/
theorem exists_rank_eq {x : Binary64} (h : x.significand ≠ 0) : ∃ r, x.rank = r + 1 := by
  refine Nat.exists_eq_succ_of_ne_zero fun hzero => h ?_
  rw [← significandAt_rank, hzero]
  rfl

theorem shortest_value_pos {x : Binary64} (h : x.significand ≠ 0) : 0 < x.shortest.value := by
  obtain ⟨r, hr⟩ := exists_rank_eq h
  refine lt_of_lt_of_le ?_ (bounds_of_contains hr (contains_shortest hr)).1
  have hpos : 0 < unitsAt x.rank := by
    rw [hr, unitsAt_succ]
    exact Nat.add_pos_right _ (gapAt_pos r)
  have hpos' : (0 : ℚ) < unitsAt x.rank := by exact_mod_cast hpos
  have := quarter_pos
  positivity

/-- **A number is told by its sign and its shortest decimal.** -/
theorem eq_of_shortest {x y : Binary64} (hx : x.significand ≠ 0) (hy : y.significand ≠ 0)
    (hsign : x.isNegative = y.isNegative) (h : x.shortest.value = y.shortest.value) : x = y := by
  obtain ⟨r, hr⟩ := exists_rank_eq hx
  obtain ⟨r', hr'⟩ := exists_rank_eq hy
  exact eq_of_rank hsign
    (rank_eq_of_contains hr hr' (contains_shortest hr) (h ▸ contains_shortest hr'))

end RequestQuery.Binary64
