import PipelineMigration.Proofs.Number.Nearest
set_option autoImplicit false

/- The order of doubles, and which whole numbers are rounded beyond the greatest one. -/
namespace PipelineMigration.Number

section Order

open Float.Model

theorem compare_finite_swap (m n : Nat) (e f : Int) :
    (compare f e).then (compare n m) = ((compare e f).then (compare m n)).swap := by
  rw [Ordering.swap_then, ← Std.OrientedCmp.eq_swap, ← Std.OrientedCmp.eq_swap]

theorem compare_swap (x y : UnpackedFloat) : y.compare x = (x.compare y).map Ordering.swap := by
  cases x with
  | notANumber => cases y <;> rfl
  | infinity s => cases y with
    | infinity t => cases s <;> cases t <;> rfl
    | notANumber => cases s <;> rfl
    | zero t => cases s <;> rfl
    | finite t n f _ => cases s <;> cases t <;> rfl
  | zero s => cases y with
    | infinity t => cases t <;> rfl
    | notANumber => rfl
    | zero t => rfl
    | finite t n f _ => cases t <;> rfl
  | finite s m e _ => cases y with
    | infinity t => cases s <;> cases t <;> rfl
    | notANumber => cases s <;> rfl
    | zero t => cases s <;> rfl
    | finite t n f _ =>
      cases s <;> cases t
      · exact congrArg (fun o => some o.swap) (compare_finite_swap m n e f)
      · rfl
      · rfl
      · exact congrArg some (compare_finite_swap m n e f)

theorem not_le_of_less {x y : Float} (less : x < y) : ¬ y ≤ x := by
  have strict : x.toModel.unpack.lt y.toModel.unpack = true := of_decide_eq_true (show x.lt y = true from less)
  have order : x.toModel.unpack.compare y.toModel.unpack = some .lt := by simpa [UnpackedFloat.lt] using strict
  intro least
  have weak : y.toModel.unpack.le x.toModel.unpack = true := of_decide_eq_true (show y.le x = true from least)
  rw [UnpackedFloat.le, compare_swap, order] at weak
  cases weak

end Order

open Float.Model Float.Model.UnpackedFloat Float.Model.Format

/-- A number whose exponent leaves it below the infinities. -/
def IsBounded : UnpackedFloat → Prop
  | .finite _ _ e _ => (e + 1075).toNat + 1 < 2048
  | _ => True

theorem unpack_infinite_iff (b : BitVec 64) : (UnpackedFloat.unpack binary64 b).isInf = true ↔
    @unpackExponent binary64 b = -1#_ ∧ @unpackMantissa binary64 b = 0#_ := by
  have fields := unpack_cases b
  generalize UnpackedFloat.unpack binary64 b = u at fields ⊢
  cases fields with
  | notANumber top some => exact iff_of_false nofun fun both => some both.2
  | infinity top none => exact iff_of_true rfl ⟨top, none⟩
  | zero low => exact iff_of_false nofun fun both => absurd (low.symm.trans both.1) (by decide)
  | subnormal low => exact iff_of_false nofun fun both => absurd (low.symm.trans both.1) (by decide)
  | normal top => exact iff_of_false nofun fun both => top both.1

theorem unpack_bounded (b : BitVec 64) : IsBounded (UnpackedFloat.unpack binary64 b) := by
  have fields := unpack_cases b
  generalize UnpackedFloat.unpack binary64 b = u at fields ⊢
  cases fields with
  | notANumber => trivial
  | infinity => trivial
  | zero => trivial
  | subnormal =>
    change (-1074 + 1075 : Int).toNat + 1 < 2048
    decide
  | normal top below =>
    change ((_ : Int) - 1075 + 1075).toNat + 1 < 2048
    omega

theorem pack_infinite (u : UnpackedFloat) (bounded : IsBounded u) :
    (UnpackedFloat.unpack binary64 (UnpackedFloat.pack binary64 u)).isInf = u.isInf := by
  cases u with
  | notANumber => decide
  | infinity s => cases s <;> decide
  | zero s => cases s <;> decide
  | finite s m e _ =>
    have bound : (e + 1075).toNat + 1 < 2048 := bounded
    have same : e + exponentBias binary64 + (52 : Nat) = e + 1075 := by
      have bias : exponentBias binary64 = 1023 := rfl
      rw [bias]
      omega
    -- The packed exponent is the same one, below that of the infinities.
    refine Bool.eq_false_iff.2 fun infinite => ?_
    obtain ⟨top, -⟩ := (unpack_infinite_iff _).1 infinite
    unfold UnpackedFloat.pack at top
    dsimp only at top
    rw [same, if_neg (by omega)] at top
    split at top
    · rw [unpackExponent_packComponents] at top
      have code := congrArg BitVec.toNat top
      rw [BitVec.toNat_ofNat] at code
      change (e + 1075).toNat % 2048 = 2047 at code
      omega
    · rw [unpackExponent_packComponents] at top
      exact absurd top (by decide)

theorem neg_bounded (u : UnpackedFloat) (bounded : IsBounded u) : IsBounded u.neg ∧ u.neg.isInf = u.isInf := by
  cases u <;> exact ⟨bounded, rfl⟩

theorem of_bits_infinite_iff (b : UInt64) : (Float.ofBits b).isInf = true ↔
    @unpackExponent binary64 b.toBitVec = -1#_ ∧ @unpackMantissa binary64 b.toBitVec = 0#_ := by
  rw [← unpack_infinite_iff, ← pack_infinite _ (unpack_bounded _)]
  rfl

theorem neg_infinite (x : Float) : (-x).isInf = x.isInf := by
  obtain ⟨bounded, same⟩ := neg_bounded _ (unpack_bounded x.toModel.toBits.toBitVec)
  exact (pack_infinite _ bounded).trans same

theorem of_bits_finite (n : Nat) (below : n < 2047 * 2 ^ 52) : (Float.ofBits (UInt64.ofNat n)).isInf = false := by
  refine Bool.eq_false_iff.2 fun infinite => ?_
  have top := congrArg BitVec.toNat ((of_bits_infinite_iff _).1 infinite).1
  have small : n < 2 ^ 64 := by omega
  have code : (UInt64.ofNat n).toBitVec.toNat = n := UInt64.toNat_ofNat_of_lt' small
  rw [exponent_code, code] at top
  change n / 2 ^ 52 % 2 ^ 11 = 2047 at top
  omega

theorem whole_exponent {n : Nat} (positive : n ≠ 0) : quotientExponent n 1 = (n.log2 : Int) - 52 := by
  obtain ⟨least, most⟩ := log_bounds positive
  refine scale_unique (exponent_scale (Nat.pos_of_ne_zero positive) Nat.one_pos) ⟨by omega, ?_, .inr ?_⟩
  · have power : (53 : ℤ) + (n.log2 - 52) = (n.log2 + 1 : ℕ) := by omega
    rw [power, zpow_natCast, Nat.cast_one, div_one]
    exact_mod_cast most
  · have power : (52 : ℤ) + (n.log2 - 52) = (n.log2 : ℕ) := by omega
    rw [power, zpow_natCast, Nat.cast_one, div_one]
    exact_mod_cast least

theorem long_scaled {n k : Nat} (least : 2 ^ (k + 52) ≤ n) (most : n < 2 ^ (k + 53)) :
    2 ^ 52 ≤ roundDiv n (2 ^ k) ∧ roundDiv n (2 ^ k) ≤ 2 ^ 53 := by
  have positive : 0 < 2 ^ k := Nat.two_pow_pos _
  rw [Nat.add_comm, Nat.pow_add] at least most
  have quotient : 2 ^ 52 ≤ n / 2 ^ k := (Nat.le_div_iff_mul_le positive).2 least
  have bound : n / 2 ^ k < 2 ^ 53 := (Nat.div_lt_iff_lt_mul positive).2 most
  obtain ⟨above, below⟩ := round_div_near n (2 ^ k)
  omega

theorem short_scaled {n k : Nat} (least : 2 ^ n.log2 ≤ n) (most : n < 2 ^ (n.log2 + 1)) (shift : n.log2 + k = 52) :
    2 ^ 52 ≤ roundDiv (n * 2 ^ k) 1 ∧ roundDiv (n * 2 ^ k) 1 ≤ 2 ^ 53 := by
  have scaled : 2 ^ 52 ≤ n * 2 ^ k := by
    rw [← shift, Nat.pow_add]
    exact Nat.mul_le_mul_right _ least
  have bound : n * 2 ^ k < 2 ^ 53 := by
    calc n * 2 ^ k < 2 ^ (n.log2 + 1) * 2 ^ k := Nat.mul_lt_mul_of_pos_right most (Nat.two_pow_pos _)
      _ = 2 ^ 53 := by
        rw [← Nat.pow_add]
        congr 1
        omega
  have exact_ : roundDiv (n * 2 ^ k) 1 = n * 2 ^ k := by
    unfold roundDiv
    simp [Nat.mod_one]
  rw [exact_]
  exact ⟨scaled, Nat.le_of_lt bound⟩

theorem whole_scaled {n : Nat} (positive : n ≠ 0) : 2 ^ 52 ≤ scaledRound n 1 ((n.log2 : Int) - 52) ∧
    scaledRound n 1 ((n.log2 : Int) - 52) ≤ 2 ^ 53 := by
  obtain ⟨least, most⟩ := log_bounds positive
  unfold scaledRound
  -- A number of more than 53 bits is divided and rounded, a shorter one multiplied.
  by_cases large : 0 ≤ (n.log2 : Int) - 52
  · have length : ((n.log2 : Int) - 52).toNat + 52 = n.log2 := by omega
    rw [if_pos large, Nat.one_mul]
    exact long_scaled (length.symm ▸ least) (by rwa [← length] at most)
  · rw [if_neg large]
    exact short_scaled least most (by omega)

/-- Half a unit below `2 ^ (k + 54)`, a unit being `2 ^ (k + 1)`. -/
def halfBelow (k : Nat) : Nat := (2 ^ 54 - 1) * 2 ^ k

theorem round_up_iff {n k : Nat} (most : n < 2 ^ (k + 54)) : 2 ^ 53 ≤ roundDiv n (2 ^ (k + 1)) ↔ halfBelow k ≤ n := by
  have unit : 2 ^ (k + 1) = 2 * 2 ^ k := Nat.pow_succ'
  have power : 2 ^ (k + 54) = 2 ^ 54 * 2 ^ k := by rw [Nat.add_comm, Nat.pow_add]
  have positive : 0 < 2 ^ k := Nat.two_pow_pos k
  unfold halfBelow
  rw [unit]
  rw [power] at most
  generalize 2 ^ k = p at *
  have whole := Nat.div_add_mod n (2 * p)
  have rest := Nat.mod_lt n (Nat.mul_pos (by decide : 0 < 2) positive)
  have quotient : n / (2 * p) < 2 ^ 53 := (Nat.div_lt_iff_lt_mul (by omega)).2 (by omega)
  unfold roundDiv
  dsimp only
  generalize n / (2 * p) = q at *
  generalize n % (2 * p) = r at *
  -- Only the greatest quotient of 53 bits can be rounded to the power; it is odd, so that a tie goes up too.
  by_cases last : q = 2 ^ 53 - 1
  · have odd : (q % 2 == 1) = true := by
      rw [last]
      decide
    subst last
    rw [odd, Bool.and_true]
    split
    · rename_i up
      rw [Bool.or_eq_true, decide_eq_true_eq, beq_iff_eq] at up
      omega
    · rename_i down
      rw [Bool.or_eq_true, decide_eq_true_eq, beq_iff_eq] at down
      omega
  · have fewer : 2 * p * (q + 1) ≤ 2 * p * (2 ^ 53 - 1) := Nat.mul_le_mul_left _ (by omega)
    rw [Nat.mul_add] at fewer
    split <;> omega

theorem below_half {n k : Nat} (small : n.log2 < k + 53) : n < halfBelow k := by
  have less : n < 2 ^ (k + 53) := Nat.lt_of_lt_of_le Nat.lt_log2_self (Nat.pow_le_pow_right (by decide) small)
  have positive : 0 < 2 ^ k := Nat.two_pow_pos k
  unfold halfBelow
  rw [Nat.pow_add] at less
  omega

theorem above_half {n k : Nat} (positive : n ≠ 0) (large : k + 54 ≤ n.log2) : halfBelow k ≤ n := by
  have more : 2 ^ (k + 54) ≤ n := Nat.le_trans (Nat.pow_le_pow_right (by decide) large) (Nat.log2_self_le positive)
  unfold halfBelow
  rw [Nat.pow_add] at more
  omega

theorem scaled_half_iff {n k : Nat} (top : n.log2 = k + 53) :
    2 ^ 53 ≤ scaledRound n 1 ((n.log2 : Int) - 52) ↔ halfBelow k ≤ n := by
  have exponent : ((n.log2 : Int) - 52).toNat = k + 1 := by omega
  have scaled : scaledRound n 1 ((n.log2 : Int) - 52) = roundDiv n (2 ^ (k + 1)) := by
    unfold scaledRound
    rw [if_pos (by omega), Nat.one_mul, exponent]
    rfl
  have limit : n < 2 ^ (k + 54) := by
    have most : n < 2 ^ (n.log2 + 1) := Nat.lt_log2_self
    rwa [top] at most
  rw [scaled]
  exact round_up_iff limit

/-- The least magnitude that is rounded beyond all doubles. -/
def overflow : Nat := halfBelow 970

theorem bits_overflow_iff {n : Nat} (positive : n ≠ 0) :
    2047 * 2 ^ 52 ≤ (n.log2 + 1022) * 2 ^ 52 + scaledRound n 1 ((n.log2 : Int) - 52) ↔ overflow ≤ n := by
  obtain ⟨above, below⟩ := whole_scaled positive
  -- The exponent decides unless the number has 1024 bits; then its rounding may carry into the exponent.
  rcases Nat.lt_trichotomy n.log2 (970 + 53) with small | top | large
  · exact iff_of_false (by omega) (Nat.not_le.2 (below_half small))
  · refine Iff.trans ?_ (scaled_half_iff top)
    omega
  · exact iff_of_true (by omega) (above_half positive large)

theorem magnitude_infinite_iff (n : Nat) : (nearestMagnitude n 1).isInf = true ↔ overflow ≤ n := by
  by_cases zero : n = 0
  · subst zero
    exact iff_of_false (by decide) (Nat.not_le.2 (below_half (by decide)))
  · have field : ((n.log2 : Int) - 52 + 1074).toNat = n.log2 + 1022 := by omega
    rw [nearest_magnitude_code (Nat.pos_of_ne_zero zero), nearestCode, whole_exponent zero, ← bits_overflow_iff zero, field]
    generalize (n.log2 + 1022) * 2 ^ 52 + scaledRound n 1 ((n.log2 : Int) - 52) = bits
    by_cases out : infinityCode ≤ bits
    · have infinite : (magnitude infinityCode).isInf = true := by decide
      rw [min_eq_left out]
      exact iff_of_true infinite out
    · have finite : (magnitude bits).isInf = false := of_bits_finite bits (Nat.not_le.1 out)
      rw [min_eq_right (not_le.1 out).le, finite]
      exact iff_of_false Bool.false_ne_true out

-- A whole number has no double just when it is rounded beyond the greatest.
theorem of_int_none_iff (n : Int) : ofInt? n = none ↔ overflow ≤ n.natAbs := by
  have infinite : (nearest n 1).isInf = (nearestMagnitude n.natAbs 1).isInf := by
    unfold nearest
    split
    · exact neg_infinite _
    · rfl
  rw [← magnitude_infinite_iff, ← infinite]
  unfold ofInt?
  dsimp only
  split
  · rename_i out
    exact iff_of_true rfl out
  · rename_i within
    exact iff_of_false nofun within

end PipelineMigration.Number
