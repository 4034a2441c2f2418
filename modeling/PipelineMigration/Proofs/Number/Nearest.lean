import Mathlib.Algebra.Order.Field.Power
import Mathlib.Data.Rat.Cast.Order
import Mathlib.Tactic.FieldSimp
import Mathlib.Tactic.Linarith
import Mathlib.Tactic.NormNum
import Mathlib.Tactic.Positivity
import PipelineMigration.Proofs.Number.Double
set_option autoImplicit false

/- The double nearest to a quotient. It depends on the value of the quotient alone, and it is a given double when the
   quotient lies closely below that. -/
namespace PipelineMigration.Number

section Powers

variable {e : ℤ} (b : ℕ)

theorem power_whole (whole : 0 ≤ e) : (b : ℚ) ^ e = (Nat.pow b e.toNat : ℕ) := by
  obtain ⟨k, rfl⟩ := Int.eq_ofNat_of_zero_le whole
  rw [Int.toNat_natCast, zpow_natCast, Nat.pow_eq, Nat.cast_pow]

theorem power_small (small : ¬ 0 ≤ e) : (b : ℚ) ^ e = ((Nat.pow b (-e).toNat : ℕ) : ℚ)⁻¹ := by
  rw [← power_whole b (by omega : 0 ≤ -e), zpow_neg, inv_inv]

end Powers

section Scale

theorem log_bounds {n : Nat} (positive : n ≠ 0) : 2 ^ n.log2 ≤ n ∧ n < 2 ^ (n.log2 + 1) :=
  ⟨Nat.log2_self_le positive, Nat.lt_log2_self⟩

/-- The exponent at which a quotient has 53 bits, or the least one when it has fewer there. -/
structure Scale (q : ℚ) (e : ℤ) : Prop where
  least : -1074 ≤ e
  below : q < 2 ^ (53 + e)
  above : e = -1074 ∨ 2 ^ (52 + e) ≤ q

variable {q : ℚ} {n d : ℕ}

theorem scale_le {e f : ℤ} (first : Scale q e) (second : Scale q f) : e ≤ f := by
  rcases first.above with low | above
  · exact low ▸ second.least
  · have powers : (2 : ℚ) ^ (52 + e) < 2 ^ (53 + f) := above.trans_lt second.below
    have less := (zpow_lt_zpow_iff_right₀ one_lt_two).1 powers
    omega

theorem scale_unique {e f : ℤ} (first : Scale q e) (second : Scale q f) : e = f :=
  le_antisymm (scale_le first second) (scale_le second first)

-- A quotient compared with a power of two, without fractions.
theorem below_power_iff (positive : 0 < d) (e : ℤ) :
    (if 0 ≤ e then decide (n < Nat.pow 2 53 * (d * Nat.pow 2 e.toNat))
      else decide (n * Nat.pow 2 (-e).toNat < Nat.pow 2 53 * d)) = true ↔ (n : ℚ) / d < 2 ^ (53 + e) := by
  have some : (0 : ℚ) < d := Nat.cast_pos.2 positive
  have split : (2 : ℚ) ^ (53 + e) = (Nat.pow 2 53 : ℕ) * (2 : ℕ) ^ e := by
    rw [zpow_add₀ two_ne_zero]
    norm_num
  rw [split, div_lt_iff₀ some]
  by_cases whole : 0 ≤ e
  · rw [if_pos whole, decide_eq_true_iff, power_whole 2 whole, mul_assoc, mul_comm (_ : ℚ) (d : ℚ)]
    exact_mod_cast Iff.rfl
  · have power : (0 : ℚ) < (Nat.pow 2 (-e).toNat : ℕ) := Nat.cast_pos.2 (Nat.two_pow_pos _)
    rw [if_neg whole, decide_eq_true_iff, power_small 2 whole, mul_right_comm, ← div_eq_mul_inv, lt_div_iff₀ power]
    exact_mod_cast Iff.rfl

-- A quotient lies between powers of two by the lengths of its numbers.
theorem quotient_bounds (some : 0 < n) (positive : 0 < d) {g : ℤ} (guess : (n.log2 : ℤ) - d.log2 - 53 = g) :
    (2 : ℚ) ^ (52 + g) ≤ n / d ∧ (n : ℚ) / d < 2 ^ (54 + g) := by
  obtain ⟨least, most⟩ := log_bounds some.ne'
  obtain ⟨lower, upper⟩ := log_bounds positive.ne'
  have denominator : (0 : ℚ) < d := Nat.cast_pos.2 positive
  constructor
  · rw [le_div_iff₀ denominator]
    calc (2 : ℚ) ^ (52 + g) * d ≤ 2 ^ (52 + g) * 2 ^ (d.log2 + 1) := by
          have cast : (d : ℚ) ≤ 2 ^ (d.log2 + 1) := by exact_mod_cast upper.le
          gcongr
      _ = 2 ^ n.log2 := by
          rw [← zpow_natCast, ← zpow_natCast, ← zpow_add₀ two_ne_zero]
          congr 1
          push_cast
          omega
      _ ≤ n := by exact_mod_cast least
  · rw [div_lt_iff₀ denominator]
    calc (n : ℚ) < 2 ^ (n.log2 + 1) := by exact_mod_cast most
      _ = 2 ^ (54 + g) * 2 ^ d.log2 := by
          rw [← zpow_natCast, ← zpow_natCast, ← zpow_add₀ two_ne_zero]
          congr 1
          push_cast
          omega
      _ ≤ 2 ^ (54 + g) * d := by
          have cast : (2 : ℚ) ^ d.log2 ≤ d := by exact_mod_cast lower
          gcongr

theorem scale_max {g : ℤ} (above : 2 ^ (52 + g) ≤ q) (below : q < 2 ^ (53 + g)) : Scale q (max (-1074) g) := by
  refine ⟨le_max_left _ _, below.trans_le ?_, ?_⟩
  · exact zpow_le_zpow_right₀ one_le_two (by omega)
  · rcases le_total g (-1074) with low | high
    · exact .inl (max_eq_left low)
    · exact .inr (by rwa [max_eq_right high])

theorem exponent_scale (some : 0 < n) (positive : 0 < d) : Scale ((n : ℚ) / d) (quotientExponent n d) := by
  obtain ⟨g, guess⟩ : ∃ g : ℤ, (n.log2 : ℤ) - d.log2 - 53 = g := ⟨_, rfl⟩
  obtain ⟨above, below⟩ := quotient_bounds some positive guess
  have fits := below_power_iff (n := n) positive g
  unfold quotientExponent
  dsimp only
  rw [guess]
  -- At the guess the quotient has 53 bits or one more.
  by_cases short : (n : ℚ) / d < 2 ^ (53 + g)
  · rw [if_pos (fits.2 short)]
    exact scale_max above short
  · rw [if_neg (mt fits.1 short)]
    have lower : 52 + (g + 1) = 53 + g := by omega
    have upper : 53 + (g + 1) = 54 + g := by omega
    exact scale_max (lower ▸ not_lt.1 short) (upper ▸ below)

end Scale

section Rounding

variable {a b c d : ℕ}

theorem round_div_near (n d : Nat) : roundDiv n d ≤ n / d + 1 ∧ n / d ≤ roundDiv n d := by
  unfold roundDiv
  dsimp only
  split <;> omega

theorem round_div_scale {k : ℕ} (positive : 0 < k) : roundDiv (a * k) (b * k) = roundDiv a b := by
  unfold roundDiv
  dsimp only
  rw [Nat.mul_div_mul_right _ _ positive, Nat.mul_mod_mul_right]
  have twice : 2 * (a % b * k) = 2 * (a % b) * k := (Nat.mul_assoc _ _ _).symm
  have less : b * k < 2 * (a % b) * k ↔ b < 2 * (a % b) := Nat.mul_lt_mul_right positive
  have same : 2 * (a % b) * k = b * k ↔ 2 * (a % b) = b := Nat.mul_left_inj positive.ne'
  simp only [twice, less, beq_eq_decide, same]

theorem round_div_same (first : 0 < b) (second : 0 < d) (same : (a : ℚ) / b = c / d) : roundDiv a b = roundDiv c d := by
  have cross : a * d = c * b := by
    rw [div_eq_div_iff (Nat.cast_pos.2 first).ne' (Nat.cast_pos.2 second).ne'] at same
    exact_mod_cast same
  rw [← round_div_scale second, cross, Nat.mul_comm b d, round_div_scale first]

-- A whole number less than half a unit away is the rounded one.
theorem round_div_unique (positive : 0 < b) {m : ℕ} (above : (m : ℚ) - 1 / 2 < a / b) (below : (a : ℚ) / b < m + 1 / 2) :
    roundDiv a b = m := by
  obtain ⟨most, least⟩ := roundDiv_within a b positive
  have some : (0 : ℚ) < b := Nat.cast_pos.2 positive
  rw [lt_div_iff₀ some] at above
  rw [div_lt_iff₀ some] at below
  have most : 2 * (a : ℚ) ≤ (2 * roundDiv a b + 1) * b := by exact_mod_cast most
  have least : 2 * (roundDiv a b : ℚ) * b ≤ 2 * a + b := by exact_mod_cast least
  have lower : (m : ℚ) < roundDiv a b + 1 := by
    refine lt_of_mul_lt_mul_right ?_ some.le
    linarith
  have upper : (roundDiv a b : ℚ) < m + 1 := by
    refine lt_of_mul_lt_mul_right ?_ some.le
    linarith
  have lower : m < roundDiv a b + 1 := by exact_mod_cast lower
  have upper : roundDiv a b < m + 1 := by exact_mod_cast upper
  omega

-- The rounded multiple of a power of two, as one division.
theorem scaled_round_quotient (n d : ℕ) (positive : 0 < d) (e : ℤ) :
    ∃ a b : ℕ, 0 < b ∧ scaledRound n d e = roundDiv a b ∧ (a : ℚ) / b = n / d / 2 ^ e := by
  have some : (d : ℚ) ≠ 0 := (Nat.cast_pos.2 positive).ne'
  have base : (2 : ℚ) = (2 : ℕ) := rfl
  unfold scaledRound
  by_cases whole : 0 ≤ e
  · refine ⟨_, _, Nat.mul_pos positive (Nat.two_pow_pos e.toNat), if_pos whole, ?_⟩
    rw [base, power_whole 2 whole, Nat.cast_mul, div_div]
    rfl
  · refine ⟨_, _, positive, if_neg whole, ?_⟩
    rw [base, power_small 2 whole, div_inv_eq_mul, Nat.cast_mul, div_mul_eq_mul_div]

theorem scaled_round_same (first : 0 < b) (second : 0 < d) (same : (a : ℚ) / b = c / d) (e : ℤ) :
    scaledRound a b e = scaledRound c d e := by
  obtain ⟨n, m, some, round, quotient⟩ := scaled_round_quotient a b first e
  obtain ⟨n', m', some', round', quotient'⟩ := scaled_round_quotient c d second e
  rw [round, round']
  exact round_div_same some some' (by rw [quotient, quotient', same])

end Rounding

section Nearest

variable {a b c d : ℕ} {v : Dyadic}

/-- The code of the double nearest to a quotient, unless that is beyond the infinity's. -/
def nearestCode (a b : ℕ) : ℕ := (quotientExponent a b + 1074).toNat * 2 ^ 52 + scaledRound a b (quotientExponent a b)

theorem nearest_zero_code (d : ℕ) : nearestMagnitude 0 d = magnitude 0 := by
  unfold nearestMagnitude
  rw [if_pos rfl]
  rfl

theorem nearest_magnitude_code (some : 0 < a) : nearestMagnitude a b = magnitude (min infinityCode (nearestCode a b)) := by
  have top : (0x7ff0000000000000 : ℕ) = infinityCode := by decide
  have infinity : (0x7ff0000000000000 : UInt64) = UInt64.ofNat infinityCode := by decide
  unfold nearestMagnitude magnitude
  rw [if_neg some.ne']
  dsimp only
  rw [Nat.pow_eq]
  change Float.ofBits (if 0x7ff0000000000000 ≤ nearestCode a b then 0x7ff0000000000000 else _) = _
  rw [top, infinity]
  by_cases out : infinityCode ≤ nearestCode a b
  · rw [if_pos out, min_eq_left out]
  · rw [if_neg out, min_eq_right (not_le.1 out).le]
    rfl

theorem quotient_exponent_same (first : 0 < b) (second : 0 < d) (some : 0 < a) (same : (a : ℚ) / b = c / d) :
    0 < c ∧ quotientExponent a b = quotientExponent c d := by
  have positive : (0 : ℚ) < c / d := by
    rw [← same]
    exact div_pos (Nat.cast_pos.2 some) (Nat.cast_pos.2 first)
  have other : 0 < c := by
    refine Nat.pos_of_ne_zero fun none => ?_
    rw [none, Nat.cast_zero, zero_div] at positive
    exact lt_irrefl _ positive
  have scale := exponent_scale some first
  rw [same] at scale
  exact ⟨other, scale_unique scale (exponent_scale other second)⟩

-- Quotients of one value have one nearest double.
theorem nearest_same (first : 0 < b) (second : 0 < d) (same : (a : ℚ) / b = c / d) :
    nearestMagnitude a b = nearestMagnitude c d := by
  rcases Nat.eq_zero_or_pos a with rfl | some
  · have none : c = 0 := by
      rw [Nat.cast_zero, zero_div, eq_comm, div_eq_zero_iff] at same
      exact_mod_cast same.resolve_right (Nat.cast_pos.2 second).ne'
    rw [none, nearest_zero_code, nearest_zero_code]
  · obtain ⟨other, exponent⟩ := quotient_exponent_same first second some same
    rw [nearest_magnitude_code some, nearest_magnitude_code other, nearestCode, nearestCode, exponent,
      scaled_round_same first second same]

def Dyadic.value (v : Dyadic) : ℚ := v.mantissa * 2 ^ v.exponent

theorem quotient_value (v : Dyadic) : 0 < v.quotient.2 ∧ (v.quotient.1 : ℚ) / v.quotient.2 = v.value := by
  have base : (2 : ℚ) = (2 : ℕ) := rfl
  unfold Dyadic.quotient Dyadic.value
  by_cases whole : 0 ≤ v.exponent
  · rw [if_pos whole, base, power_whole 2 whole]
    refine ⟨Nat.one_pos, ?_⟩
    push_cast
    rw [div_one]
  · rw [if_neg whole, base, power_small 2 whole, div_eq_mul_inv]
    exact ⟨Nat.two_pow_pos _, rfl⟩

/-- Closely below a double: less than half the space to the next one down. -/
structure Closely (q : ℚ) (v : Dyadic) : Prop where
  below : q ≤ v.value
  close : (v.value - q) * 10 ^ 17 ≤ v.value

theorem closely_units {q : ℚ} (canonical : v.Canonical) (closely : Closely q v) :
    q / 2 ^ v.exponent ≤ v.mantissa ∧ (v.mantissa : ℚ) - 1 / 4 < q / 2 ^ v.exponent := by
  have unit : (0 : ℚ) < 2 ^ v.exponent := by positivity
  have short : (v.mantissa : ℚ) < 2 ^ 53 := by exact_mod_cast canonical.short
  have count : q = q / 2 ^ v.exponent * 2 ^ v.exponent := (div_mul_cancel₀ q unit.ne').symm
  obtain ⟨below, close⟩ := closely
  unfold Dyadic.value at below close
  generalize q / 2 ^ v.exponent = t at count ⊢
  subst count
  have near : ((v.mantissa - t) * 10 ^ 17) * 2 ^ v.exponent ≤ v.mantissa * 2 ^ v.exponent := by linarith
  have units := le_of_mul_le_mul_right near unit
  refine ⟨le_of_mul_le_mul_right below unit, ?_⟩
  linarith

-- The code of a quotient that is less than half a unit of its scale away from a whole number of them.
theorem nearest_code_at (some : 0 < a) (positive : 0 < b) {e : ℤ} (scale : Scale ((a : ℚ) / b) e) {m : ℕ}
    (above : (m : ℚ) - 1 / 2 < a / b / 2 ^ e) (below : (a : ℚ) / b / 2 ^ e < m + 1 / 2) :
    nearestCode a b = (e + 1074).toNat * 2 ^ 52 + m := by
  obtain ⟨n, d, fraction, round, quotient⟩ := scaled_round_quotient a b positive e
  rw [← quotient] at above below
  rw [nearestCode, scale_unique (exponent_scale some positive) scale, round, round_div_unique fraction above below]

theorem unit_halved (q : ℚ) (e : ℤ) : q / 2 ^ (e - 1) = 2 * (q / 2 ^ e) := by
  have half : (2 : ℚ) ^ e = 2 * 2 ^ (e - 1) := by
    rw [← zpow_one_add₀ two_ne_zero]
    congr 1
    omega
  rw [half]
  field_simp

theorem least_mantissa {t : ℚ} (canonical : v.Canonical) (high : ¬ v.exponent = -1074) (carried : t < 2 ^ 52)
    (close : (v.mantissa : ℚ) - 1 / 4 < t) : v.mantissa = 2 ^ 52 := by
  have next : (v.mantissa : ℚ) < 2 ^ 52 + 1 := by linarith
  have next : v.mantissa < 2 ^ 52 + 1 := by exact_mod_cast next
  have bits := canonical.full.resolve_left high
  omega

theorem closely_code (some : 0 < a) (positive : 0 < b) (canonical : v.Canonical) (closely : Closely ((a : ℚ) / b) v) :
    nearestCode a b = v.code := by
  have unit : (0 : ℚ) < 2 ^ v.exponent := by positivity
  have short : (v.mantissa : ℚ) < 2 ^ 53 := by exact_mod_cast canonical.short
  obtain ⟨most, close⟩ := closely_units canonical closely
  by_cases full : v.exponent = -1074 ∨ (2 : ℚ) ^ (52 + v.exponent) ≤ a / b
  · have limit : (a : ℚ) / b < 2 ^ (53 + v.exponent) := by
      rw [zpow_add₀ two_ne_zero, ← div_lt_iff₀ unit]
      exact most.trans_lt (by exact_mod_cast short)
    exact nearest_code_at some positive ⟨canonical.least, limit, full⟩ (by linarith) (by linarith)
  · -- The quotient is below a power of two and the double is that power, with twice as many units below it.
    obtain ⟨high, carried⟩ := not_or.1 full
    have lower := canonical.least
    rw [zpow_add₀ two_ne_zero, ← le_div_iff₀ unit, not_le] at carried
    have power := least_mantissa canonical high carried close
    have bits : (v.mantissa : ℚ) = 2 ^ 52 := by exact_mod_cast power
    have finer : (0 : ℚ) < 2 ^ (v.exponent - 1) := by positivity
    have twice := unit_halved ((a : ℚ) / b) v.exponent
    have below : Scale ((a : ℚ) / b) (v.exponent - 1) := by
      refine ⟨by omega, ?_, .inr ?_⟩
      · rw [zpow_add₀ two_ne_zero, ← div_lt_iff₀ finer, twice]
        linarith
      · rw [zpow_add₀ two_ne_zero, ← le_div_iff₀ finer, twice]
        linarith
    rw [nearest_code_at (m := 2 ^ 53) some positive below]
    · unfold Dyadic.code
      rw [power]
      omega
    · rw [twice]
      push_cast
      linarith
    · rw [twice]
      push_cast
      linarith

theorem nearest_closely (some : 0 < a) (positive : 0 < b) (canonical : v.Canonical) (finite : v.code < infinityCode)
    (closely : Closely ((a : ℚ) / b) v) : nearestMagnitude a b = magnitude v.code := by
  rw [nearest_magnitude_code some, closely_code some positive canonical closely, min_eq_right finite.le]

-- A quotient of less than half the least unit is rounded to zero.
theorem nearest_code_zero (some : 0 < a) (positive : 0 < b) {e : ℤ} (low : e = -1074)
    (small : (a : ℚ) / b / 2 ^ e < 1 / 2) : nearestCode a b = 0 := by
  have unit : (0 : ℚ) < 2 ^ e := by positivity
  have units : (0 : ℚ) ≤ a / b / 2 ^ e := by positivity
  have scale : Scale ((a : ℚ) / b) e := by
    refine ⟨low.ge, ?_, .inl low⟩
    rw [zpow_add₀ two_ne_zero, ← div_lt_iff₀ unit]
    linarith
  rw [nearest_code_at (m := 0) some positive scale, low]
  · rfl
  · push_cast
    linarith
  · push_cast
    linarith

-- A quotient whose nearest double is finite and not zero is within these bounds.
theorem nearest_range {k : ℕ} (positive : 0 < b) (finite : k < infinityCode) (filled : k ≠ 0)
    (nearest : nearestMagnitude a b = magnitude k) :
    (2 : ℚ) ^ (-1075 : ℤ) ≤ a / b ∧ (a : ℚ) / b < 2 ^ (1025 : ℤ) := by
  have some : 0 < a := by
    refine Nat.pos_of_ne_zero fun none => filled ?_
    rw [none, nearest_zero_code] at nearest
    rw [← magnitude_code finite.le, ← nearest, magnitude_code (Nat.zero_le _)]
  have code : nearestCode a b = k := by
    have least : min infinityCode (nearestCode a b) = k := by
      rw [← magnitude_code (min_le_left infinityCode (nearestCode a b)), ← nearest_magnitude_code some, nearest,
        magnitude_code finite.le]
    omega
  constructor
  · obtain ⟨e, low⟩ : ∃ e : ℤ, e = -1074 := ⟨_, rfl⟩
    have unit : (0 : ℚ) < 2 ^ e := by positivity
    have half : (2 : ℚ) ^ (-1075 : ℤ) = 1 / 2 * 2 ^ e := by
      have same : (-1075 : ℤ) = -1 + e := by omega
      rw [same, zpow_add₀ two_ne_zero, zpow_neg_one, one_div]
    rw [half, ← le_div_iff₀ unit]
    by_contra small
    exact filled (code.symm.trans (nearest_code_zero some positive low (not_le.1 small)))
  · have scale := exponent_scale some positive
    have short : quotientExponent a b ≤ 972 := by
      unfold nearestCode at code
      unfold infinityCode at finite
      omega
    exact scale.below.trans_le (zpow_le_zpow_right₀ one_le_two (by omega))

end Nearest

end PipelineMigration.Number
