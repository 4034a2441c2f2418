import Mathlib.Data.Nat.Cast.Order.Field
import Mathlib.Data.Rat.Floor
import Mathlib.Tactic.Linarith
import Mathlib.Tactic.Positivity
import Mathlib.Tactic.FieldSimp
import Mathlib.Tactic.NormNum
import PipelineMigration.Proofs.Number.Nearest
set_option autoImplicit false

/- Rounding half up in doubles. The double nearest to a quotient, and its sum with one half, are at most a small unit
   above the exact number and never below a half that it reaches, so that the whole part is the exact one unless the
   denominator is very great. -/
namespace PipelineMigration.Number

open Float.Model Float.Model.UnpackedFloat Float.Model.Format

section Codes

variable {f m : Nat}

theorem pack_code {e : Int} (positive : 0 < m) (least : 2 ^ 52 ≤ m) (most : m < 2 ^ 53) (field : e + 1074 = f)
    (below : f < 2046) : (UnpackedFloat.pack binary64 (.finite .positive m e positive)).toNat = f * 2 ^ 52 + m := by
  have sign : Sign.positive.toBitVec.toNat = 0 := rfl
  rw [pack_normal positive least most (f := f + 1) (by omega) (by omega), components_code, sign, BitVec.toNat_ofNat,
    BitVec.toNat_ofNat]
  omega

theorem unpack_code {b : BitVec 64} (code : b.toNat = f * 2 ^ 52 + m) (least : 2 ^ 52 ≤ m) (most : m < 2 ^ 53)
    (below : f < 2046) : UnpackedFloat.unpack binary64 b = .finite .positive m (f - 1074) (by omega) := by
  have exponent : (@unpackExponent binary64 b).toNat = f + 1 := by
    rw [exponent_code]
    omega
  have mantissa : (@unpackMantissa binary64 b).toNat = m - 2 ^ 52 := by
    rw [mantissa_code]
    omega
  have sign : @unpackSign binary64 b = 0#1 := by
    refine BitVec.eq_of_toNat_eq ((sign_code b).trans ?_)
    change _ = 0
    omega
  have infinite : @unpackExponent binary64 b ≠ -1#_ := fun top => by
    rw [top] at exponent
    change 2047 = f + 1 at exponent
    omega
  have subnormal : @unpackExponent binary64 b ≠ 0#_ := fun low => by
    rw [low] at exponent
    cases exponent
  have fields := unpack_cases b
  generalize UnpackedFloat.unpack binary64 b = u at fields ⊢
  cases fields with
  | notANumber top => exact absurd top infinite
  | infinity top => exact absurd top infinite
  | zero low => exact absurd low subnormal
  | subnormal low => exact absurd low subnormal
  | normal => exact finite_same (congrArg Sign.ofBitVec sign) (by omega) (by omega) _

end Codes

section Rounding

theorem shift_mantissa (em : ExtendedMantissa) (k : Nat) : (em >>> k).mantissa = em.mantissa / 2 ^ k := by
  induction k with
  | zero => exact (Nat.div_one _).symm
  | succ k ih =>
    have step : (em >>> (k + 1)).mantissa = (em >>> k).mantissa / 2 := rfl
    rw [step, ih, Nat.div_div_eq_div_mul, Nat.pow_succ]

theorem rounded_within (em : ExtendedMantissa) :
    em.mantissa ≤ em.roundedMantissa ∧ em.roundedMantissa ≤ em.mantissa + 1 := by
  obtain ⟨m, roundBit, stickyBit⟩ := em
  cases roundBit <;> cases stickyBit <;>
    simp only [ExtendedMantissa.roundedMantissa, ExtendedMantissa.accuracy, Accuracy.roundToNearestEven] <;> omega

section Shift

variable {m k s : Nat}

-- A mantissa of `k + 53` bits has `k` too many.
theorem target_exponent (least : 2 ^ (k + 52) ≤ m) (most : m < 2 ^ (k + 53)) (small : s ≤ k + 1074) :
    targetExponent binary64 (totalExponent m (-(s : Int))) = (k : Int) - s := by
  have bits : m.log2 = k + 52 :=
    (Nat.log2_eq_iff (Nat.ne_of_gt (Nat.lt_of_lt_of_le (Nat.two_pow_pos _) least))).2 ⟨least, most⟩
  have limits : mantissaBits binary64 = 53 ∧ minExponent binary64 = -1074 := ⟨rfl, rfl⟩
  rw [targetExponent, totalExponent, limits.1, limits.2, bits]
  omega

theorem shift_target (least : 2 ^ (k + 52) ≤ m) (most : m < 2 ^ (k + 53)) (small : s ≤ k + 1074) :
    shiftToTargetExponent binary64 m (-(s : Int)) .exact =
      ((⟨m, false, false⟩ : ExtendedMantissa) >>> k, -(s : Int) + k) := by
  have room : ((k : Int) - s - -(s : Int)).toNat = k := by omega
  unfold shiftToTargetExponent shiftToExponent
  dsimp only
  rw [target_exponent least most small, room]
  rfl

end Shift

-- A carry is one unit of the next exponent.
theorem settled_code {r s : Nat} (least : 2 ^ 52 ≤ r) (most : r ≤ 2 ^ 53) (some : 0 < s) (small : s ≤ 1000) :
    let shifted := shiftToTargetExponent binary64 r (-(s : Int)) .exact
    (UnpackedFloat.pack binary64 (if none : shifted.1.mantissa = 0 then .zero .positive
      else .finite .positive shifted.1.mantissa shifted.2 (Nat.pos_of_ne_zero none))).toNat =
        (1074 - s) * 2 ^ 52 + r := by
  rcases Nat.lt_or_eq_of_le most with short | rfl
  · rw [shift_target (k := 0) (by omega) short (by omega)]
    have whole : ((⟨r, false, false⟩ : ExtendedMantissa) >>> 0).mantissa = r := rfl
    dsimp only
    rw [dif_neg (by omega)]
    exact pack_code _ least short (by omega) (by omega)
  · rw [shift_target (k := 1) (by omega) (by omega) (by omega)]
    have half : ((⟨2 ^ 53, false, false⟩ : ExtendedMantissa) >>> 1).mantissa = 2 ^ 52 := rfl
    dsimp only
    rw [dif_neg (by omega)]
    refine (pack_code (f := 1074 - s + 1) _ (by omega) (by omega) (by omega) (by omega)).trans ?_
    omega

-- Rounded, it is its quotient or one unit more.
theorem round_code {m k s : Nat} (least : 2 ^ (k + 52) ≤ m) (most : m < 2 ^ (k + 53)) (some : k < s)
    (small : s ≤ 1000) :
    ∃ r, (UnpackedFloat.pack binary64 (UnpackedFloat.round binary64 .positive m (-(s : Int)))).toNat =
        (1074 - (s - k)) * 2 ^ 52 + r ∧
      2 ^ 52 ≤ r ∧ r ≤ 2 ^ 53 ∧ m / 2 ^ k ≤ r ∧ r ≤ m / 2 ^ k + 1 := by
  have kept : decreaseExponent m (-(s : Int)) ((k : Int) - s) = (m, -(s : Int)) := by
    have none : (-(s : Int) - ((k : Int) - s)).toNat = 0 := by omega
    rw [decreaseExponent, none]
    exact Prod.ext Nat.shiftLeft_zero (Int.sub_zero _)
  obtain ⟨above, below⟩ : m / 2 ^ k ≤ ((⟨m, false, false⟩ : ExtendedMantissa) >>> k).roundedMantissa ∧
      ((⟨m, false, false⟩ : ExtendedMantissa) >>> k).roundedMantissa ≤ m / 2 ^ k + 1 :=
    shift_mantissa ⟨m, false, false⟩ k ▸ rounded_within _
  have quotient : 2 ^ 52 ≤ m / 2 ^ k ∧ m / 2 ^ k < 2 ^ 53 := by
    rw [Nat.pow_add, Nat.mul_comm] at least most
    exact ⟨(Nat.le_div_iff_mul_le (Nat.two_pow_pos k)).2 least, (Nat.div_lt_iff_lt_mul (Nat.two_pow_pos k)).2 most⟩
  have scale : -(s : Int) + k = -((s - k : Nat) : Int) := by omega
  refine ⟨_, ?_, by omega, by omega, above, below⟩
  unfold UnpackedFloat.round roundWithAccuracy
  dsimp only
  rw [target_exponent least most (by omega), kept]
  dsimp only
  rw [shift_target least most (by omega)]
  dsimp only
  rw [scale]
  exact settled_code (by omega) (by omega) (by omega) (by omega)

end Rounding

section Values

/-- `x` is `q`: at most `2 ^ 53` units of a power of two, where that number itself is a carry. -/
def IsDouble (x : Float) (q : ℚ) : Prop :=
  ∃ m s : Nat, x.toBits.toNat = (1074 - s) * 2 ^ 52 + m ∧ 2 ^ 52 ≤ m ∧ m ≤ 2 ^ 53 ∧ 0 < s ∧ s ≤ 1000 ∧ q = m / 2 ^ s

variable {x : Float} {p q : ℚ}

theorem double_settled (double : IsDouble x q) : ∃ m s : Nat,
    x.toBits.toNat = (1074 - s) * 2 ^ 52 + m ∧ 2 ^ 52 ≤ m ∧ m < 2 ^ 53 ∧ s ≤ 1000 ∧ q = m / 2 ^ s := by
  obtain ⟨m, s, code, least, most, some, small, value⟩ := double
  rcases Nat.lt_or_eq_of_le most with short | rfl
  · exact ⟨m, s, code, least, short, small, value⟩
  · obtain ⟨t, rfl⟩ : ∃ t, s = t + 1 := ⟨s - 1, by omega⟩
    have carried : x.toBits.toNat = (1074 - t) * 2 ^ 52 + 2 ^ 52 := by
      rw [code]
      omega
    refine ⟨2 ^ 52, t, carried, by omega, by omega, by omega, value.trans ?_⟩
    push_cast
    rw [pow_succ 2 t]
    field_simp
    norm_num

theorem truncate_double (double : IsDouble x q) : truncate? x = some ⌊q⌋ := by
  obtain ⟨m, s, code, least, most, small, value⟩ := double_settled double
  have read : dyadic? x = some ⟨false, m, -(s : Int)⟩ := by
    have biased : x.toBits.toNat / Nat.pow 2 52 % 2048 = 1075 - s := by
      rw [Nat.pow_eq]
      omega
    have fraction : Nat.pow 2 52 + x.toBits.toNat % Nat.pow 2 52 = m := by
      rw [Nat.pow_eq]
      omega
    have positive : ¬ Nat.pow 2 63 ≤ x.toBits.toNat := by
      rw [Nat.pow_eq]
      omega
    have scale : ((1075 - s : Nat) : Int) - 1075 = -s := by omega
    unfold dyadic?
    dsimp only
    rw [biased, if_neg (by omega), if_neg (by omega), decide_eq_false positive, fraction, scale]
  have size : (if 0 ≤ -(s : Int) then m * Nat.pow 2 (-(s : Int)).toNat else m / Nat.pow 2 (- -(s : Int)).toNat) =
      m / 2 ^ s := by
    rw [Int.neg_neg, Int.toNat_natCast]
    split
    · obtain rfl : s = 0 := by omega
      exact (Nat.mul_one m).trans (Nat.div_one m).symm
    · rfl
  have floor : ⌊q⌋ = (m / 2 ^ s : Nat) := by
    rw [value]
    exact_mod_cast Rat.floor_natCast_div_natCast m (2 ^ s)
  unfold truncate?
  rw [read, Option.map_some, floor]
  dsimp only
  rw [size, if_neg Bool.false_ne_true]

/-- `p` is at most `2 ^ (-45)` above `q`, and not below a half that `q` reaches. -/
structure Near (q p : ℚ) : Prop where
  halves : ∀ z : ℤ, (z : ℚ) / 2 ≤ q → (z : ℚ) / 2 ≤ p
  above : p ≤ q + 1 / 2 ^ 45

theorem near_units {a b s r : Nat} (fine : 45 ≤ s) (least : a / b ≤ r) (most : r ≤ a / b + 1) :
    Near ((a : ℚ) / b / 2 ^ s) (r / 2 ^ s) := by
  have unit : (0 : ℚ) < 2 ^ s := by positivity
  constructor
  · intro z below
    obtain ⟨t, rfl⟩ : ∃ t, s = t + 1 := ⟨s - 1, by omega⟩
    have scaled : ((z * 2 ^ t : ℤ) : ℚ) ≤ (a : ℚ) / b := by
      rw [div_le_div_iff₀ (by norm_num) unit] at below
      push_cast
      rw [pow_succ] at below
      linarith
    have whole : z * 2 ^ t ≤ ((a / b : Nat) : ℤ) := by
      exact_mod_cast Rat.floor_natCast_div_natCast a b ▸ Int.le_floor.2 scaled
    have counted : z * 2 ^ t ≤ (r : ℤ) := whole.trans (by exact_mod_cast least)
    have cast : (z : ℚ) * 2 ^ t ≤ r := by exact_mod_cast counted
    rw [div_le_div_iff₀ (by norm_num) unit, pow_succ]
    linarith
  · have quotient : ((a / b : Nat) : ℚ) ≤ (a : ℚ) / b := Nat.cast_div_le
    have unit_le : (1 : ℚ) / 2 ^ s ≤ 1 / 2 ^ 45 :=
      one_div_le_one_div_of_le (by positivity) (pow_le_pow_right₀ (by norm_num) fine)
    have count : (r : ℚ) ≤ a / b + 1 := by
      have cast : (r : ℚ) ≤ (a / b : Nat) + 1 := by exact_mod_cast most
      linarith
    calc (r : ℚ) / 2 ^ s ≤ (a / b + 1) / 2 ^ s := div_le_div_of_nonneg_right count unit.le
      _ = a / b / 2 ^ s + 1 / 2 ^ s := add_div _ _ _
      _ ≤ a / b / 2 ^ s + 1 / 2 ^ 45 := by linarith

end Values

section Quotients

variable {n d : Nat}

-- Where a quotient stands that is not very small and below 128.
theorem quotient_scale (some : 0 < n) (bound : n < 128 * d) (small : d < 2 ^ 43) : ∃ s : Nat,
    45 ≤ s ∧ s ≤ 96 ∧ quotientExponent n d = -(s : Int) ∧ 2 ^ 52 * d ≤ n * 2 ^ s ∧ n * 2 ^ s < 2 ^ 53 * d := by
  have denominator : (0 : ℚ) < d := Nat.cast_pos.2 (by omega)
  have scale := exponent_scale some (by omega : 0 < d)
  generalize quotientExponent n d = e at scale ⊢
  have low : (2 : ℚ) ^ (-43 : ℤ) < n / d := by
    have numerator : (1 : ℚ) ≤ n := Nat.one_le_cast.2 some
    have width : (d : ℚ) < 2 ^ 43 := by exact_mod_cast small
    rw [lt_div_iff₀ denominator, zpow_neg, inv_mul_lt_iff₀ (by positivity), zpow_ofNat]
    exact width.trans_le (le_mul_of_one_le_right (by positivity) numerator)
  have high : (n : ℚ) / d < 2 ^ (7 : ℤ) := by
    have product : (n : ℚ) < 128 * d := by exact_mod_cast bound
    rw [div_lt_iff₀ denominator]
    norm_num
    linarith
  have fine : -43 < 53 + e := (zpow_lt_zpow_iff_right₀ one_lt_two).1 (low.trans scale.below)
  have above := scale.above.resolve_left (by omega)
  have coarse : 52 + e < 7 := (zpow_lt_zpow_iff_right₀ one_lt_two).1 (above.trans_lt high)
  obtain ⟨s, rfl⟩ : ∃ s : ℕ, e = -(s : ℤ) := ⟨(-e).toNat, by omega⟩
  have unscaled (k : ℕ) : (2 : ℚ) ^ ((k : ℤ) + -(s : ℤ)) = 2 ^ k / 2 ^ s := by
    rw [zpow_add₀ two_ne_zero, zpow_neg, zpow_natCast, zpow_natCast, div_eq_mul_inv]
  refine ⟨s, by omega, by omega, rfl, ?_, ?_⟩
  · have least : (2 : ℚ) ^ 52 / 2 ^ s ≤ n / d := unscaled 52 ▸ above
    rw [div_le_div_iff₀ (by positivity) denominator] at least
    exact_mod_cast least
  · have most : (n : ℚ) / d < 2 ^ 53 / 2 ^ s := unscaled 53 ▸ scale.below
    rw [div_lt_div_iff₀ denominator (by positivity)] at most
    exact_mod_cast most

theorem nearest_double (some : 0 < n) (bound : n < 128 * d) (small : d < 2 ^ 43) :
    ∃ q, IsDouble (nearest n d) q ∧ Near ((n : ℚ) / d) q := by
  obtain ⟨s, fine, coarse, exponent, least, most⟩ := quotient_scale some bound small
  have positive : 0 < d := by omega
  have lower : 2 ^ 52 ≤ n * 2 ^ s / d := (Nat.le_div_iff_mul_le positive).2 least
  have upper : n * 2 ^ s / d < 2 ^ 53 := (Nat.div_lt_iff_lt_mul positive).2 most
  obtain ⟨below, above⟩ := round_div_near (n * 2 ^ s) d
  have scaled : scaledRound n d (-(s : Int)) = roundDiv (n * 2 ^ s) d := by
    unfold scaledRound
    rw [if_neg (by omega), Int.neg_neg, Int.toNat_natCast, Nat.pow_eq]
  have code : nearestCode n d = (1074 - s) * 2 ^ 52 + roundDiv (n * 2 ^ s) d := by
    have field : (-(s : Int) + 1074).toNat = 1074 - s := by omega
    rw [nearestCode, exponent, scaled, field]
  have finite : nearestCode n d ≤ infinityCode := by
    unfold infinityCode
    omega
  have bits : (nearest n d).toBits.toNat = (1074 - s) * 2 ^ 52 + roundDiv (n * 2 ^ s) d := by
    unfold nearest
    rw [if_neg (by omega), Int.natAbs_natCast, nearest_magnitude_code some, min_eq_right finite, magnitude_code finite, code]
  refine ⟨(roundDiv (n * 2 ^ s) d : ℚ) / 2 ^ s, ⟨_, s, bits, by omega, by omega, by omega, by omega, rfl⟩, ?_⟩
  have unscaled : (n : ℚ) / d = ((n * 2 ^ s : Nat) : ℚ) / d / 2 ^ s := by
    push_cast
    field_simp
  rw [unscaled]
  exact near_units fine above below

theorem half_code : (0.5 : Float).toModel.unpack = .finite .positive (2 ^ 52) (-(53 : Nat)) (by decide) := by
  rfl

-- The sum of a double and one half, counted in the smaller unit of the two before it is rounded.
theorem half_added {x : Float} {m s t : Nat} (code : x.toBits.toNat = (1074 - s) * 2 ^ 52 + m) (least : 2 ^ 52 ≤ m)
    (most : m < 2 ^ 53) (small : s ≤ 1000) (unit : t = max s 53) : (x + 0.5).toBits.toNat =
      (UnpackedFloat.pack binary64 (UnpackedFloat.round binary64 .positive
        (m * 2 ^ (t - s) + 2 ^ 52 * 2 ^ (t - 53)) (-(t : Int)))).toNat := by
  have field : ((1074 - s : Nat) : Int) - 1074 = -s := by omega
  have left : x.toModel.unpack = .finite .positive m (-(s : Int)) (by omega) :=
    (unpack_code (b := x.toModel.toBits.toBitVec) code least most (by omega)).trans (finite_same rfl rfl field _)
  have smaller : min (-(s : Int)) (-(53 : Nat)) = -(t : Int) := by omega
  have scaled (a e : Nat) : (decreaseExponent a (-(e : Int)) (-(t : Int))).1 = a * 2 ^ (t - e) := by
    have shift : (-(e : Int) - -(t : Int)).toNat = t - e := by omega
    rw [decreaseExponent, shift]
    exact Nat.shiftLeft_eq _ _
  have whole : Sign.positive.apply (m * 2 ^ (t - s) : Nat) + Sign.positive.apply (2 ^ 52 * 2 ^ (t - 53) : Nat) =
    ((m * 2 ^ (t - s) + 2 ^ 52 * 2 ^ (t - 53) : Nat) : Int) := (Int.natCast_add _ _).symm
  have some : 0 < m * 2 ^ (t - s) := Nat.mul_pos (by omega) (Nat.two_pow_pos _)
  have more : compare ((m * 2 ^ (t - s) + 2 ^ 52 * 2 ^ (t - 53) : Nat) : Int) 0 = .gt :=
    Int.compare_eq_gt.2 (by omega)
  change (UnpackedFloat.pack binary64
    (UnpackedFloat.add binary64 x.toModel.unpack (0.5 : Float).toModel.unpack)).toNat = _
  rw [left, half_code]
  unfold UnpackedFloat.add
  dsimp only
  rw [smaller, scaled, scaled, whole, UnpackedFloat.normalize, more]
  rfl

theorem two_power_split {s t : Nat} (le : s ≤ t) : (2 : ℚ) ^ t = 2 ^ (t - s) * 2 ^ s := by
  rw [← pow_add, Nat.sub_add_cancel le]

section Half

variable {m s t : Nat} (unit : t = max s 53)

include unit

theorem half_counted : (m : ℚ) / 2 ^ s + 1 / 2 = ((m * 2 ^ (t - s) + 2 ^ 52 * 2 ^ (t - 53) : Nat) : ℚ) / 2 ^ t := by
  have first := two_power_split (unit ▸ Nat.le_max_left s 53)
  have second := two_power_split (unit ▸ Nat.le_max_right s 53)
  push_cast
  rw [add_div]
  congr 1
  · rw [first]
    field_simp
  · rw [second]
    field_simp
    norm_num

theorem half_full (least : 2 ^ 52 ≤ m) : 2 ^ 52 ≤ m * 2 ^ (t - s) + 2 ^ 52 * 2 ^ (t - 53) := by
  rcases Nat.le_total s 53 with coarse | fine
  · obtain rfl : t = 53 := by omega
    omega
  · obtain rfl : t = s := by omega
    rw [Nat.sub_self, Nat.pow_zero, Nat.mul_one]
    omega

end Half

theorem half_double {x : Float} {q : ℚ} (double : IsDouble x q) (bound : q < 129) :
    ∃ p, IsDouble (x + 0.5) p ∧ Near (q + 1 / 2) p := by
  obtain ⟨m, s, code, least, most, small, value⟩ := double_settled double
  obtain ⟨t, unit⟩ : ∃ t, t = max s 53 := ⟨_, rfl⟩
  have sum := half_added code least most small unit
  have exact_ := value ▸ half_counted (m := m) unit
  have full := half_full unit least
  generalize m * 2 ^ (t - s) + 2 ^ 52 * 2 ^ (t - 53) = a at sum exact_ full
  have limit : a < 2 ^ (t + 8) := by
    have within : (a : ℚ) / 2 ^ t < 2 ^ 8 := by
      rw [← exact_]
      norm_num
      linarith
    rw [div_lt_iff₀ (by positivity), ← pow_add, Nat.add_comm] at within
    exact_mod_cast within
  have bits := log_bounds (n := a) (by omega)
  have least : 52 ≤ a.log2 := (Nat.le_log2 (by omega)).2 full
  have most : a.log2 < t + 8 := (Nat.log2_lt (by omega)).2 limit
  obtain ⟨k, top⟩ : ∃ k, a.log2 = k + 52 := ⟨a.log2 - 52, by omega⟩
  rw [top] at bits
  obtain ⟨r, rounded, lower, upper, above, below⟩ := round_code bits.1 bits.2 (by omega : k < t) (by omega)
  refine ⟨(r : ℚ) / 2 ^ (t - k), ⟨r, t - k, sum.trans rounded, lower, upper, by omega, by omega, rfl⟩, ?_⟩
  have split : (a : ℚ) / 2 ^ t = (a : ℚ) / (2 ^ k : Nat) / 2 ^ (t - k) := by
    rw [two_power_split (show k ≤ t by omega), mul_comm, div_div]
    push_cast
    rfl
  rw [exact_, split]
  exact near_units (by omega) above below

theorem half_truncated : truncate? ((0 : Float) + 0.5) = some 0 := by decide

theorem nearest_zero (d : Nat) : nearest (0 : Nat) d = 0 := by
  unfold nearest nearestMagnitude
  rw [if_neg (by decide), if_pos (by decide)]

-- Two roundings leave a whole part as it is, where the exact one is further from the next than their errors.
theorem near_floor {p q : ℚ} (first : Near ((n : ℚ) / d) q) (second : Near (q + 1 / 2) p) (positive : 0 < d)
    (small : d < 2 ^ 43) : ⌊p⌋ = ⌊(n : ℚ) / d + 1 / 2⌋ := by
  have some : (0 : ℚ) < d := Nat.cast_pos.2 positive
  generalize floor : ⌊(n : ℚ) / d + 1 / 2⌋ = z
  obtain ⟨least, most⟩ := Int.floor_eq_iff.1 floor
  refine Int.floor_eq_iff.2 ⟨?_, ?_⟩
  · have half := first.halves (2 * z - 1) (by push_cast; linarith)
    have whole := second.halves (2 * z) (by push_cast at half ⊢; linarith)
    push_cast at whole
    linarith
  · have units : 2 * (n : ℤ) + d < 2 * d * (z + 1) := by
      rw [div_add_div _ _ some.ne' (by norm_num), div_lt_iff₀ (by positivity)] at most
      have cast : (2 * (n : ℚ) + d : ℚ) < 2 * d * (z + 1) := by linarith
      exact_mod_cast cast
    have gap : (n : ℚ) / d + 1 / 2 + 1 / (2 * d) ≤ z + 1 := by
      have cast : (2 * (n : ℚ) + d + 1 : ℚ) ≤ 2 * d * (z + 1) := by exact_mod_cast units
      have same : (n : ℚ) / d + 1 / 2 + 1 / (2 * d) = (2 * n + d + 1) / (2 * d) := by
        field_simp
      rw [same, div_le_iff₀ (by positivity)]
      linarith
    have coarse : (1 : ℚ) / 2 ^ 44 < 1 / (2 * d) := by
      have cast : (d : ℚ) < 2 ^ 43 := by exact_mod_cast small
      have power : (2 : ℚ) ^ 44 = 2 * 2 ^ 43 := pow_succ' 2 43
      refine one_div_lt_one_div_of_lt (by positivity) ?_
      rw [power]
      linarith
    have errors : (1 : ℚ) / 2 ^ 45 + 1 / 2 ^ 45 = 1 / 2 ^ 44 := by norm_num
    have below := first.above
    have above := second.above
    linarith

-- A quotient that is rounded half up in doubles is the exact one, unless it has a very great denominator.
theorem rounded_half_up (bound : n < 128 * d) (small : d < 2 ^ 43) :
    truncate? (nearest n d + 0.5) = some ⌊(n : ℚ) / d + 1 / 2⌋ := by
  by_cases zero : n = 0
  · subst zero
    rw [nearest_zero, half_truncated]
    norm_num
  · have positive : 0 < d := by omega
    obtain ⟨q, quotient, first⟩ := nearest_double (Nat.pos_of_ne_zero zero) bound small
    have least : (n : ℚ) / d < 128 := (div_lt_iff₀ (Nat.cast_pos.2 positive)).2 (by exact_mod_cast bound)
    have above := first.above
    obtain ⟨p, sum, second⟩ := half_double quotient (by norm_num at above; linarith)
    rw [truncate_double sum, near_floor first second positive small]

end Quotients
end PipelineMigration.Number
