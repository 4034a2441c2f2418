import Mathlib.Data.Nat.Cast.Order.Field
import Mathlib.Tactic.Ring
import PipelineMigration.Number.Decimal
import PipelineMigration.Number.Reading
import PipelineMigration.Proofs.Number.Nearest
set_option autoImplicit false

/- The shortest decimal of a double reads back as that double. A grid of eighteen digits has a decimal closely below
   every double, so that the search for the fewest digits ends with one that reads back. -/
namespace PipelineMigration.Number

section Decimals

def decimal (n : ℕ) (e : ℤ) : ℚ := n * 10 ^ e

/-- The double nearest to a decimal. -/
def nearestDecimal (n : ℕ) (e : ℤ) : Float :=
  if 0 ≤ e then nearestMagnitude (n * Nat.pow 10 e.toNat) 1 else nearestMagnitude n (Nat.pow 10 (-e).toNat)

variable {m n : ℕ} {e f : ℤ}

theorem nearest_decimal_quotient (n : ℕ) (e : ℤ) :
    ∃ a b : ℕ, 0 < b ∧ nearestDecimal n e = nearestMagnitude a b ∧ (a : ℚ) / b = decimal n e := by
  have base : (10 : ℚ) = (10 : ℕ) := rfl
  unfold nearestDecimal decimal
  by_cases whole : 0 ≤ e
  · refine ⟨_, 1, Nat.one_pos, if_pos whole, ?_⟩
    rw [base, power_whole 10 whole, Nat.cast_one, div_one, Nat.cast_mul]
  · refine ⟨n, _, Nat.pow_pos (by decide), if_neg whole, ?_⟩
    rw [base, power_small 10 whole, div_eq_mul_inv, Nat.pow_eq]

theorem nearest_decimal_same (same : decimal m e = decimal n f) : nearestDecimal m e = nearestDecimal n f := by
  obtain ⟨a, b, first, left, quotient⟩ := nearest_decimal_quotient m e
  obtain ⟨c, d, second, right, other⟩ := nearest_decimal_quotient n f
  rw [left, right]
  exact nearest_same first second (quotient.trans (same.trans other.symm))

theorem decimal_shift (n k : ℕ) (e : ℤ) : decimal (n * 10 ^ k) e = decimal n (e + k) := by
  unfold decimal
  push_cast
  rw [zpow_add₀ (by norm_num), zpow_natCast]
  ring

theorem drop_zeros_decimal (fuel n : ℕ) (e : ℤ) :
    decimal (dropZeros fuel n e).1 (dropZeros fuel n e).2 = decimal n e := by
  induction fuel generalizing n e with
  | zero => rfl
  | succ fuel ih =>
    unfold dropZeros
    by_cases zero : n % 10 = 0 ∧ n ≠ 0
    · have whole : n / 10 * 10 ^ 1 = n := by omega
      have shifted := decimal_shift (n / 10) 1 e
      rw [whole] at shifted
      rw [if_pos zero, ih]
      exact shifted.symm
    · rw [if_neg zero]

-- A number has as many digits as its size asks for.
theorem digits_bounds (some : 0 < n) :
    10 ^ ((Text.ofNat n).length - 1) ≤ n ∧ n < 10 ^ (Text.ofNat n).length := by
  have filled : 0 < (Text.ofNat n).length := Nat.length_toDigits_pos
  refine ⟨?_, (Nat.length_toDigits_le_iff (by decide) filled).1 (Nat.le_refl _)⟩
  by_contra small
  rcases Nat.eq_zero_or_pos ((Text.ofNat n).length - 1) with single | more
  · rw [single] at small
    omega
  · have fewer := (Nat.length_toDigits_le_iff (by decide) more).2 (Nat.lt_of_not_le small)
    unfold Text.ofNat at filled fewer
    omega

end Decimals

section Grid

variable {num den : ℕ} {x : Float}

theorem leading_power_le (some : 0 < num) (positive : 0 < den) : (10 : ℚ) ^ leadingPower num den ≤ num / den := by
  have numerator : (0 : ℚ) < num := Nat.cast_pos.2 some
  have denominator : (0 : ℚ) < den := Nat.cast_pos.2 positive
  unfold leadingPower
  by_cases large : den ≤ num
  · have whole : 0 < num / den := Nat.div_pos large positive
    obtain ⟨least, -⟩ := digits_bounds whole
    have filled : 0 < (Text.ofNat (num / den)).length := Nat.length_toDigits_pos
    have power : ((Text.ofNat (num / den)).length : ℤ) - 1 = ((Text.ofNat (num / den)).length - 1 : ℕ) := by omega
    rw [if_pos large, power, zpow_natCast]
    calc (10 : ℚ) ^ ((Text.ofNat (num / den)).length - 1) ≤ (num / den : ℕ) := by exact_mod_cast least
      _ ≤ num / den := Nat.cast_div_le
  · rw [if_neg large]
    have whole : 0 < den / num := Nat.div_pos (Nat.le_of_not_le large) some
    obtain ⟨-, most⟩ := digits_bounds whole
    have filled : 0 < (Text.ofNat (den / num)).length := Nat.length_toDigits_pos
    dsimp only
    generalize (Text.ofNat (den / num)).length = guess at *
    rw [Nat.pow_eq]
    by_cases reached : den ≤ num * 10 ^ (guess - 1)
    · have power : -((guess : ℤ) - 1) = -((guess - 1 : ℕ) : ℤ) := by omega
      rw [if_pos reached, power, zpow_neg, zpow_natCast, ← one_div, div_le_div_iff₀ (by positivity) denominator]
      rw [one_mul]
      exact_mod_cast reached
    · have below : den < num * 10 ^ guess := by
        rw [Nat.mul_comm]
        exact (Nat.div_lt_iff_lt_mul some).1 most
      rw [if_neg reached, zpow_neg, zpow_natCast, ← one_div, div_le_div_iff₀ (by positivity) denominator]
      rw [one_mul]
      exact_mod_cast below.le

/-- The multiple of a power of ten next below a quotient. -/
def gridFloor (num den : ℕ) (e : ℤ) : ℕ :=
  if 0 ≤ e then num / (den * Nat.pow 10 e.toNat) else num * Nat.pow 10 (-e).toNat / den

theorem grid_floor_near (num : ℕ) (positive : 0 < den) (e : ℤ) :
    decimal (gridFloor num den e) e ≤ num / den ∧ (num : ℚ) / den - decimal (gridFloor num den e) e ≤ 10 ^ e := by
  have base : (10 : ℚ) = (10 : ℕ) := rfl
  have unit : (0 : ℚ) < 10 ^ e := by positivity
  obtain ⟨a, b, some, floor, quotient⟩ : ∃ a b : ℕ,
      0 < b ∧ gridFloor num den e = a / b ∧ (a : ℚ) / b = num / den / 10 ^ e := by
    unfold gridFloor
    by_cases whole : 0 ≤ e
    · refine ⟨_, _, Nat.mul_pos positive (Nat.pow_pos (by decide)), if_pos whole, ?_⟩
      rw [base, power_whole 10 whole, Nat.cast_mul, div_div]
      rfl
    · refine ⟨_, _, positive, if_neg whole, ?_⟩
      rw [base, power_small 10 whole, div_inv_eq_mul, Nat.cast_mul, div_mul_eq_mul_div]
  have count : (num : ℚ) / den = a / b * 10 ^ e := by
    rw [quotient, div_mul_cancel₀ _ unit.ne']
  have least : ((a / b : ℕ) : ℚ) ≤ a / b := Nat.cast_div_le
  have most : (a : ℚ) / b ≤ (a / b : ℕ) + 1 := by
    have less : a < (a / b + 1) * b := (Nat.div_lt_iff_lt_mul some).1 (Nat.lt_succ_self _)
    rw [div_le_iff₀ (Nat.cast_pos.2 some)]
    exact_mod_cast less.le
  unfold decimal
  rw [floor, count]
  constructor
  · exact mul_le_mul_of_nonneg_right least unit.le
  · rw [← sub_mul]
    exact (mul_le_mul_of_nonneg_right (sub_le_iff_le_add'.2 most) unit.le).trans (one_mul _).le

theorem on_grid_some {n : ℕ} {e : ℤ} (found : onGrid? x num den e = some n) : readsBack x n e = true := by
  obtain ⟨m, floor⟩ : ∃ m, gridFloor num den e = m := ⟨_, rfl⟩
  unfold gridFloor at floor
  unfold onGrid? at found
  dsimp only at found
  rw [floor] at found
  split at found
  · split at found
    · cases found
      assumption
    · cases found
      assumption
  · cases found
    assumption
  · cases found
    assumption
  · cases found

theorem on_grid_none {e : ℤ} (none : onGrid? x num den e = .none) : readsBack x (gridFloor num den e) e = false := by
  unfold onGrid? at none
  dsimp only at none
  unfold gridFloor
  split at none
  · split at none <;> cases none
  · cases none
  · cases none
  · assumption

-- A search that comes to a grid with a fit ends with a fit.
theorem first_grid_reads {top : ℤ} {fuel count c : ℕ} (behind : count ≤ c) (ahead : c < count + fuel)
    (fit : readsBack x (gridFloor num den (top - c)) (top - c) = true) :
    readsBack x (firstGrid x num den top fuel count).1 (firstGrid x num den top fuel count).2 = true := by
  induction fuel generalizing count with
  | zero => omega
  | succ fuel ih =>
    unfold firstGrid
    dsimp only
    cases found : onGrid? x num den (top - count) with
    | some n => exact on_grid_some found
    | none =>
      have apart : count ≠ c := fun same => by
        rw [← same, on_grid_none found] at fit
        cases fit
      exact ih (by omega) (by omega)

end Grid

section Shortest

variable {x : Float} {d : Dyadic}

theorem nearest_some (a b : ℕ) : ∃ k ≤ infinityCode, nearestMagnitude a b = magnitude k := by
  rcases Nat.eq_zero_or_pos a with rfl | some
  · exact ⟨0, Nat.zero_le _, nearest_zero_code b⟩
  · exact ⟨_, min_le_left _ _, nearest_magnitude_code some⟩

theorem reads_back_iff {n k : ℕ} {e : ℤ} (plain : k ≤ infinityCode) :
    readsBack (magnitude k) n e = true ↔ nearestDecimal n e = magnitude k := by
  obtain ⟨a, b, -, nearest, -⟩ := nearest_decimal_quotient n e
  obtain ⟨j, bound, same⟩ := nearest_some a b
  change (nearestDecimal n e == magnitude k) = true ↔ _
  rw [nearest, same, magnitude_beq_iff bound plain]
  refine ⟨fun codes => by rw [codes], fun doubles => ?_⟩
  rw [← magnitude_code bound, doubles, magnitude_code plain]

-- A grid of eighteen digits has a fit.
theorem grid_fits (canonical : d.Canonical) (finite : d.code < infinityCode) (filled : 0 < d.mantissa) {e : ℤ}
    (grid : e = leadingPower d.quotient.1 d.quotient.2 - (17 : ℕ)) :
    nearestDecimal (gridFloor d.quotient.1 d.quotient.2 e) e = magnitude d.code := by
  obtain ⟨positive, value⟩ := quotient_value d
  have some : 0 < d.quotient.1 := by
    refine Nat.pos_of_ne_zero fun none => ?_
    rw [none, Nat.cast_zero, zero_div, eq_comm, Dyadic.value, mul_eq_zero] at value
    exact filled.ne' (by exact_mod_cast value.resolve_right (by positivity))
  have unit : (0 : ℚ) < 10 ^ e := by positivity
  have leading : (10 : ℚ) ^ e * 10 ^ 17 ≤ d.value := by
    have power : (10 : ℚ) ^ e * 10 ^ 17 = 10 ^ leadingPower d.quotient.1 d.quotient.2 := by
      rw [grid, ← zpow_natCast, ← zpow_add₀ (by norm_num)]
      congr 1
      omega
    rw [power, ← value]
    exact leading_power_le some positive
  obtain ⟨below, close⟩ := grid_floor_near d.quotient.1 positive e
  rw [value] at below close
  obtain ⟨a, b, fraction, nearest, quotient⟩ := nearest_decimal_quotient (gridFloor d.quotient.1 d.quotient.2 e) e
  rw [← quotient] at below close
  rw [nearest]
  refine nearest_closely ?_ fraction canonical finite ⟨below, ?_⟩
  · refine Nat.pos_of_ne_zero fun none => ?_
    rw [none, Nat.cast_zero, zero_div] at close
    linarith
  · linarith

theorem decimal_range {n k : ℕ} {e : ℤ} (finite : k < infinityCode) (filled : k ≠ 0)
    (nearest : nearestDecimal n e = magnitude k) :
    (2 : ℚ) ^ (-1075 : ℤ) ≤ decimal n e ∧ decimal n e < 2 ^ (1025 : ℤ) := by
  obtain ⟨a, b, positive, same, quotient⟩ := nearest_decimal_quotient n e
  rw [← quotient]
  exact nearest_range positive finite filled (same.symm.trans nearest)

theorem decimal_filled {n k : ℕ} {e : ℤ} (finite : k < infinityCode) (filled : k ≠ 0)
    (nearest : nearestDecimal n e = magnitude k) : n ≠ 0 := by
  intro none
  have least := (decimal_range finite filled nearest).1
  have unit : (0 : ℚ) < 2 ^ (-1075 : ℤ) := zpow_pos two_pos _
  rw [none, decimal, Nat.cast_zero, zero_mul] at least
  exact absurd least (not_le.2 unit)

theorem code_filled (filled : d.mantissa ≠ 0) : d.code ≠ 0 := by
  unfold Dyadic.code
  omega

theorem shortest_reads (known : dyadic? x = some d) (filled : d.mantissa ≠ 0) :
    nearestDecimal (shortest x.abs d.quotient.1 d.quotient.2).1 (shortest x.abs d.quotient.1 d.quotient.2).2 =
      magnitude d.code := by
  obtain ⟨-, finite, canonical⟩ := dyadic_code known
  obtain ⟨-, size⟩ := finite_double known
  rw [size]
  have fit := (reads_back_iff finite.le).2 (grid_fits canonical finite (Nat.pos_of_ne_zero filled) rfl)
  have found := first_grid_reads (Nat.zero_le 17) (by decide : 17 < 0 + 18) fit
  unfold shortest
  dsimp only
  generalize firstGrid (magnitude d.code) d.quotient.1 d.quotient.2 (leadingPower d.quotient.1 d.quotient.2) 18 0 = r at *
  exact (nearest_decimal_same (drop_zeros_decimal 20 r.1 r.2)).trans ((reads_back_iff finite.le).1 found)

theorem eight_powers {k : ℤ} (large : 0 ≤ k) : (2 : ℚ) ^ (3 * k) ≤ 10 ^ k := by
  rw [zpow_mul]
  exact zpow_le_zpow_left₀ large (by norm_num) (by norm_num)

-- Decimals in the range of the doubles are not so far out that they are taken for zero or for the infinity.
theorem of_scientific_nearest {n k : ℕ} {e : ℤ} (finite : k < infinityCode) (filled : k ≠ 0)
    (nearest : nearestDecimal n e = magnitude k) : ofScientific n e = magnitude k := by
  have some := decimal_filled finite filled nearest
  obtain ⟨least, most⟩ := decimal_range finite filled nearest
  obtain ⟨lower, upper⟩ := digits_bounds (Nat.pos_of_ne_zero some)
  have digits : 0 < (Text.ofNat n).length := Nat.length_toDigits_pos
  have unit : (0 : ℚ) < 10 ^ e := by positivity
  have near : ¬ 400 < ((Text.ofNat n).length : ℤ) + e := by
    intro above
    have power : (10 : ℚ) ^ (((Text.ofNat n).length : ℤ) + e - 1) ≤ decimal n e := by
      have same : ((Text.ofNat n).length : ℤ) + e - 1 = ((Text.ofNat n).length - 1 : ℕ) + e := by omega
      rw [same, zpow_add₀ (by norm_num), zpow_natCast]
      exact mul_le_mul_of_nonneg_right (by exact_mod_cast lower) unit.le
    have eight := eight_powers (k := ((Text.ofNat n).length : ℤ) + e - 1) (by omega)
    have wide : (2 : ℚ) ^ (1025 : ℤ) ≤ 2 ^ (3 * (((Text.ofNat n).length : ℤ) + e - 1)) :=
      zpow_le_zpow_right₀ one_le_two (by omega)
    exact absurd most (not_lt.2 (wide.trans (eight.trans power)))
  have far : ¬ ((Text.ofNat n).length : ℤ) + e < -400 := by
    intro below
    have power : decimal n e < (10 : ℚ) ^ (((Text.ofNat n).length : ℤ) + e) := by
      rw [zpow_add₀ (by norm_num), zpow_natCast]
      exact mul_lt_mul_of_pos_right (by exact_mod_cast upper) unit
    have eight := eight_powers (k := -(((Text.ofNat n).length : ℤ) + e)) (by omega)
    rw [← inv_le_inv₀ (by positivity) (by positivity), ← zpow_neg, ← zpow_neg, neg_neg] at eight
    have wide : (2 : ℚ) ^ (-(3 * -(((Text.ofNat n).length : ℤ) + e))) ≤ 2 ^ (-1075 : ℤ) :=
      zpow_le_zpow_right₀ one_le_two (by omega)
    exact absurd least (not_le.2 (power.trans_le (eight.trans wide)))
  rw [← nearest]
  unfold ofScientific
  rw [if_neg some]
  dsimp only
  rw [if_neg near, if_neg far]
  rfl

-- Every decimal of the value of the shortest one is read as the double.
theorem shortest_scientific (known : dyadic? x = some d) (filled : d.mantissa ≠ 0) {n : ℕ} {e : ℤ}
    (same : decimal n e = decimal (shortest x.abs d.quotient.1 d.quotient.2).1
      (shortest x.abs d.quotient.1 d.quotient.2).2) : ofScientific n e = magnitude d.code :=
  of_scientific_nearest (dyadic_code known).2.1 (code_filled filled)
    ((nearest_decimal_same same).trans (shortest_reads known filled))

end Shortest
end PipelineMigration.Number
