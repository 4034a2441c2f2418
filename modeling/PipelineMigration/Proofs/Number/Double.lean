import Mathlib
import PipelineMigration.Number.Binary
set_option autoImplicit false

/- Doubles by their codes. A double is the packed form of its parts, so that a finite one is given by its sign and
   by the code of its magnitude; and magnitudes are equal numbers just when they are the same double. -/
namespace PipelineMigration.Number

open Float.Model Float.Model.UnpackedFloat Float.Model.Format

section Fields

variable (b : BitVec 64)

theorem exponent_code : (@unpackExponent binary64 b).toNat = b.toNat / 2 ^ 52 % 2 ^ 11 := by
  rw [unpackExponent, BitVec.toNat_cast, BitVec.extractLsb_toNat, Nat.shiftRight_eq_div_pow]
  rfl

theorem mantissa_code : (@unpackMantissa binary64 b).toNat = b.toNat % 2 ^ 52 := by
  rw [unpackMantissa, BitVec.toNat_cast, BitVec.extractLsb_toNat, Nat.shiftRight_eq_div_pow, Nat.pow_zero, Nat.div_one]
  rfl

theorem sign_code : (@unpackSign binary64 b).toNat = b.toNat / 2 ^ 63 := by
  have size := b.isLt
  rw [unpackSign, BitVec.toNat_cast, BitVec.extractLsb_toNat, Nat.shiftRight_eq_div_pow]
  change b.toNat / 2 ^ 63 % 2 ^ 1 = _
  omega

theorem components_code (s : Sign) (e : BitVec 11) (m : BitVec 52) :
    (packComponents binary64 s e m).toNat = s.toBitVec.toNat * 2 ^ 63 + e.toNat * 2 ^ 52 + m.toNat := by
  change (s.toBitVec ++ e ++ m).toNat = _
  rw [BitVec.toNat_append, BitVec.toNat_append, ← Nat.shiftLeft_add_eq_or_of_lt (BitVec.isLt _),
    ← Nat.shiftLeft_add_eq_or_of_lt (BitVec.isLt _), Nat.shiftLeft_eq, Nat.shiftLeft_eq]
  omega

theorem sign_bit (v : BitVec 1) : (Sign.ofBitVec v).toBitVec = v := by
  have either : v = 0#1 ∨ v = 1#1 := by
    have size := v.isLt
    rcases (by omega : v.toNat = 0 ∨ v.toNat = 1) with none | one
    · exact .inl (BitVec.eq_of_toNat_eq none)
    · exact .inr (BitVec.eq_of_toNat_eq one)
  rcases either with rfl | rfl <;> rfl

theorem components_whole : packComponents binary64 (Sign.ofBitVec (@unpackSign binary64 b))
    (@unpackExponent binary64 b) (@unpackMantissa binary64 b) = b := by
  have size := b.isLt
  refine BitVec.eq_of_toNat_eq ?_
  rw [components_code, sign_bit, sign_code, exponent_code, mantissa_code]
  omega

/-- What a double is by the fields of its code. -/
inductive Unpacked : UnpackedFloat → Prop where
  | notANumber (top : @unpackExponent binary64 b = -1#_) (some : @unpackMantissa binary64 b ≠ 0#_) :
      Unpacked .notANumber
  | infinity (top : @unpackExponent binary64 b = -1#_) (none : @unpackMantissa binary64 b = 0#_) :
      Unpacked (.infinity (Sign.ofBitVec (@unpackSign binary64 b)))
  | zero (low : @unpackExponent binary64 b = 0#_) (none : @unpackMantissa binary64 b = 0#_) :
      Unpacked (.zero (Sign.ofBitVec (@unpackSign binary64 b)))
  | subnormal (low : @unpackExponent binary64 b = 0#_) (some : 0 < (@unpackMantissa binary64 b).toNat) :
      Unpacked (.finite (Sign.ofBitVec (@unpackSign binary64 b)) (@unpackMantissa binary64 b).toNat (-1074) some)
  | normal (top : @unpackExponent binary64 b ≠ -1#_) (below : (@unpackExponent binary64 b).toNat < 2047)
      (some : 0 < 2 ^ 52 + (@unpackMantissa binary64 b).toNat) :
      Unpacked (.finite (Sign.ofBitVec (@unpackSign binary64 b)) (2 ^ 52 + (@unpackMantissa binary64 b).toNat)
        ((@unpackExponent binary64 b).toNat - 1075) some)

theorem finite_same {s t : Sign} {m n : Nat} {e e' : Int} (sign : s = t) (mantissa : m = n) (exponent : e = e')
    (some : 0 < m) : UnpackedFloat.finite s m e some = .finite t n e' (mantissa ▸ some) := by
  subst sign mantissa exponent
  rfl

theorem unpack_cases : Unpacked b (UnpackedFloat.unpack binary64 b) := by
  have bias : (exponentBias binary64 : Int) = 1023 := rfl
  unfold UnpackedFloat.unpack
  dsimp only
  by_cases top : @unpackExponent binary64 b = -1#_
  · rw [if_pos top]
    by_cases none : @unpackMantissa binary64 b = 0#_
    · rw [if_pos none]
      exact .infinity top none
    · rw [if_neg none]
      exact .notANumber top none
  · rw [if_neg top]
    by_cases low : @unpackExponent binary64 b = 0#_
    · rw [if_pos low]
      by_cases none : @unpackMantissa binary64 b = 0#_
      · rw [dif_pos none]
        exact .zero low none
      · have scale : ((@unpackExponent binary64 b).toNat : Int) - (exponentBias binary64 + (52 : Nat)) + 1 = -1074 := by
          rw [low, bias]
          rfl
        rw [dif_neg none, finite_same rfl rfl scale]
        exact .subnormal low _
    · have width : (@unpackExponent binary64 b).toNat < 2 ^ 11 := BitVec.isLt _
      have below : (@unpackExponent binary64 b).toNat ≠ 2047 := fun same => top (BitVec.eq_of_toNat_eq same)
      have mantissa : (1#1 ++ @unpackMantissa binary64 b).toNat = 2 ^ 52 + (@unpackMantissa binary64 b).toNat := by
        rw [BitVec.toNat_append, ← Nat.shiftLeft_add_eq_or_of_lt (BitVec.isLt _), Nat.shiftLeft_eq]
        exact congrArg (· + _) (Nat.one_mul _)
      have scale : ((@unpackExponent binary64 b).toNat : Int) - (exponentBias binary64 + (52 : Nat)) =
          (@unpackExponent binary64 b).toNat - 1075 := by
        rw [bias]
        rfl
      rw [if_neg low, finite_same rfl mantissa scale]
      exact .normal top (by omega) _

end Fields

section Packing

variable {s : Sign} {m : Nat}

theorem pack_normal {e : Int} {f : Nat} (some : 0 < m) (least : 2 ^ 52 ≤ m) (most : m < 2 ^ 53) (field : e + 1075 = f)
    (below : f < 2047) :
    UnpackedFloat.pack binary64 (.finite s m e some) =
      packComponents binary64 s (BitVec.ofNat 11 f) (BitVec.ofNat 52 m) := by
  have same : e + exponentBias binary64 + (52 : Nat) = f := by
    have bias : exponentBias binary64 = 1023 := rfl
    rw [bias]
    omega
  have bits : m.log2 + 1 = mantissaBits binary64 := by
    rw [(Nat.log2_eq_iff (by omega)).2 ⟨least, most⟩]
    rfl
  unfold UnpackedFloat.pack
  dsimp only
  rw [same, Int.toNat_natCast, if_neg (by omega), if_pos bits]

theorem pack_subnormal (some : 0 < m) (most : m < 2 ^ 52) :
    UnpackedFloat.pack binary64 (.finite s m (-1074) some) = packComponents binary64 s 0#11 (BitVec.ofNat 52 m) := by
  have bits : m.log2 + 1 ≠ mantissaBits binary64 := by
    have short : m.log2 < 52 := (Nat.log2_lt (by omega)).2 most
    have width : mantissaBits binary64 = 53 := rfl
    omega
  unfold UnpackedFloat.pack
  dsimp only
  rw [if_neg (by decide), if_neg bits]

-- A code is the packed form of its parts.
theorem pack_unpack {b : BitVec 64} (valid : Format.Valid binary64 b) :
    UnpackedFloat.pack binary64 (UnpackedFloat.unpack binary64 b) = b := by
  have whole := components_whole b
  have size : (@unpackMantissa binary64 b).toNat < 2 ^ 52 := BitVec.isLt _
  have fields := unpack_cases b
  generalize UnpackedFloat.unpack binary64 b = u at fields ⊢
  cases fields with
  | notANumber top some => exact (valid.eq_packedNaN top some).symm
  | infinity top none =>
    rw [top, none] at whole
    exact whole
  | zero low none =>
    rw [low, none] at whole
    exact whole
  | subnormal low some =>
    rw [low] at whole
    rw [pack_subnormal _ size, BitVec.ofNat_toNat, BitVec.setWidth_eq]
    exact whole
  | normal top below some =>
    have rest : BitVec.ofNat 52 (2 ^ 52 + (@unpackMantissa binary64 b).toNat) = @unpackMantissa binary64 b := by
      refine BitVec.eq_of_toNat_eq ?_
      rw [BitVec.toNat_ofNat]
      omega
    rw [pack_normal _ (by omega) (by omega) (Int.sub_add_cancel _ _) below, rest, BitVec.ofNat_toNat,
      BitVec.setWidth_eq]
    exact whole

end Packing

section Magnitudes

/-- The code of the infinity, behind those of all finite magnitudes. -/
def infinityCode : Nat := 2047 * 2 ^ 52

/-- The double without a sign that has a code. -/
def magnitude (k : Nat) : Float := Float.ofBits (UInt64.ofNat k)

/-- No NaN and without a minus sign. -/
def IsPlus : UnpackedFloat → Prop
  | .notANumber => False
  | .infinity s => s = .positive
  | .zero s => s = .positive
  | .finite s _ _ _ => s = .positive

variable {j k : Nat} {b c : BitVec 64} {x y : Float}

theorem plain_mantissa (plain : b.toNat ≤ infinityCode) (top : @unpackExponent binary64 b = -1#_) :
    @unpackMantissa binary64 b = 0#_ := by
  have exponent := exponent_code b
  rw [top] at exponent
  change 2047 = b.toNat / 2 ^ 52 % 2 ^ 11 at exponent
  refine BitVec.eq_of_toNat_eq ((mantissa_code b).trans ?_)
  unfold infinityCode at plain
  change _ = 0
  omega

theorem plain_valid (plain : b.toNat ≤ infinityCode) : Format.Valid binary64 b :=
  ⟨fun top some => absurd (plain_mantissa plain top) some⟩

theorem plain_plus (plain : b.toNat ≤ infinityCode) : IsPlus (UnpackedFloat.unpack binary64 b) := by
  have sign : @unpackSign binary64 b = 0#1 := by
    refine BitVec.eq_of_toNat_eq ((sign_code b).trans ?_)
    unfold infinityCode at plain
    change _ = 0
    omega
  have plus : Sign.ofBitVec (@unpackSign binary64 b) = .positive := congrArg Sign.ofBitVec sign
  have fields := unpack_cases b
  generalize UnpackedFloat.unpack binary64 b = u at fields ⊢
  cases fields with
  | notANumber top some => exact absurd (plain_mantissa plain top) some
  | infinity top none => exact plus
  | zero low none => exact plus
  | subnormal low some => exact plus
  | normal top below some => exact plus

theorem of_bits_packed (valid : Format.Valid binary64 b) : (Float.ofBits ⟨b⟩).toModel.toBits.toBitVec = b :=
  pack_unpack valid

-- Doubles with the same parts are the same.
theorem double_ext (same : x.toModel.unpack = y.toModel.unpack) : x = y := by
  obtain ⟨⟨⟨b⟩, first⟩⟩ := x
  obtain ⟨⟨⟨c⟩, second⟩⟩ := y
  have codes : b = c :=
    (pack_unpack first).symm.trans ((congrArg (UnpackedFloat.pack binary64) same).trans (pack_unpack second))
  subst codes
  rfl

theorem of_bits_unpack (valid : Format.Valid binary64 b) :
    (Float.ofBits ⟨b⟩).toModel.unpack = UnpackedFloat.unpack binary64 b :=
  congrArg (UnpackedFloat.unpack binary64) (of_bits_packed valid)

theorem code_number (plain : k ≤ infinityCode) : (BitVec.ofNat 64 k).toNat = k := by
  unfold infinityCode at plain
  rw [BitVec.toNat_ofNat]
  omega

theorem magnitude_unpack (plain : k ≤ infinityCode) :
    (magnitude k).toModel.unpack = UnpackedFloat.unpack binary64 (BitVec.ofNat 64 k) :=
  of_bits_unpack (plain_valid (by rwa [code_number plain]))

theorem magnitude_code (plain : k ≤ infinityCode) : (magnitude k).toBits.toNat = k :=
  (congrArg BitVec.toNat (of_bits_packed (b := BitVec.ofNat 64 k) (plain_valid (by rwa [code_number plain])))).trans
    (code_number plain)

theorem magnitude_plus (plain : k ≤ infinityCode) : IsPlus (magnitude k).toModel.unpack := by
  rw [magnitude_unpack plain]
  exact plain_plus (by rwa [code_number plain])

theorem beq_plus_iff {u v : UnpackedFloat} (first : IsPlus u) (second : IsPlus v) : u.beq v = true ↔ u = v := by
  cases u with
  | notANumber => exact first.elim
  | infinity s =>
    obtain rfl : s = .positive := first
    cases v with
    | notANumber => exact second.elim
    | infinity t =>
      obtain rfl : t = .positive := second
      exact iff_of_true rfl rfl
    | zero t => exact iff_of_false Bool.false_ne_true nofun
    | finite t n f _ => exact iff_of_false Bool.false_ne_true nofun
  | zero s =>
    obtain rfl : s = .positive := first
    cases v with
    | notANumber => exact second.elim
    | infinity t =>
      obtain rfl : t = .positive := second
      exact iff_of_false Bool.false_ne_true nofun
    | zero t =>
      obtain rfl : t = .positive := second
      exact iff_of_true rfl rfl
    | finite t n f _ =>
      obtain rfl : t = .positive := second
      exact iff_of_false Bool.false_ne_true nofun
  | finite s m e _ =>
    obtain rfl : s = .positive := first
    cases v with
    | notANumber => exact second.elim
    | infinity t =>
      obtain rfl : t = .positive := second
      exact iff_of_false Bool.false_ne_true nofun
    | zero t => exact iff_of_false Bool.false_ne_true nofun
    | finite t n f _ =>
      obtain rfl : t = .positive := second
      change (some ((compare e f).then (compare m n)) == some Ordering.eq) = true ↔ _
      simp [Ordering.then_eq_eq, and_comm]

-- Magnitudes are equal as numbers just when they are the same.
theorem magnitude_beq_iff (first : j ≤ infinityCode) (second : k ≤ infinityCode) :
    (magnitude j == magnitude k) = true ↔ j = k := by
  refine (beq_plus_iff (magnitude_plus first) (magnitude_plus second)).trans ⟨fun same => ?_, fun same => by rw [same]⟩
  rw [← magnitude_code first, double_ext same, magnitude_code second]

end Magnitudes
section Signs

variable {k : Nat} {b : BitVec 64} {x : Float} {d : Dyadic}

theorem minus_unpack (code : b.toNat = 2 ^ 63 + k) (plain : k ≤ infinityCode) :
    UnpackedFloat.unpack binary64 b = (UnpackedFloat.unpack binary64 (BitVec.ofNat 64 k)).neg := by
  have plus := code_number plain
  unfold infinityCode at plain
  have exponent : @unpackExponent binary64 b = @unpackExponent binary64 (BitVec.ofNat 64 k) := by
    refine BitVec.eq_of_toNat_eq ?_
    rw [exponent_code, exponent_code, plus, code]
    omega
  have mantissa : @unpackMantissa binary64 b = @unpackMantissa binary64 (BitVec.ofNat 64 k) := by
    refine BitVec.eq_of_toNat_eq ?_
    rw [mantissa_code, mantissa_code, plus, code]
    omega
  have sign : @unpackSign binary64 b = 1#1 := by
    refine BitVec.eq_of_toNat_eq ((sign_code b).trans ?_)
    change _ = 1
    omega
  have unsigned : @unpackSign binary64 (BitVec.ofNat 64 k) = 0#1 := by
    refine BitVec.eq_of_toNat_eq ((sign_code _).trans ?_)
    rw [plus]
    change _ = 0
    omega
  unfold UnpackedFloat.unpack
  simp only [exponent, mantissa, sign, unsigned]
  by_cases top : @unpackExponent binary64 (BitVec.ofNat 64 k) = -1#_
  · rw [if_pos top, if_pos top]
    split <;> rfl
  · rw [if_neg top, if_neg top]
    split
    · split <;> rfl
    · rfl

theorem plus_abs {u : UnpackedFloat} (plus : IsPlus u) : u.abs = u ∧ u.neg.abs = u := by
  cases u with
  | notANumber => exact plus.elim
  | infinity s => exact plus ▸ ⟨rfl, rfl⟩
  | zero s => exact plus ▸ ⟨rfl, rfl⟩
  | finite s m e _ => exact plus ▸ ⟨rfl, rfl⟩

theorem packed_double (x : Float) : Float.ofModel (Float.Model.pack x.toModel.unpack) = x :=
  double_ext (congrArg (UnpackedFloat.unpack binary64) (pack_unpack x.toModel.valid))

theorem plus_double (code : x.toBits.toNat = k) (plain : k ≤ infinityCode) : x = magnitude k ∧ x.abs = magnitude k := by
  have bits : x.toModel.toBits.toBitVec = BitVec.ofNat 64 k :=
    BitVec.eq_of_toNat_eq (code.trans (code_number plain).symm)
  have parts : x.toModel.unpack = (magnitude k).toModel.unpack := by
    rw [magnitude_unpack plain, ← bits]
    rfl
  have same := double_ext parts
  refine ⟨same, ?_⟩
  change Float.ofModel (Float.Model.pack x.toModel.unpack.abs) = _
  rw [parts, (plus_abs (magnitude_plus plain)).1, packed_double]

theorem minus_double (code : x.toBits.toNat = 2 ^ 63 + k) (plain : k ≤ infinityCode) :
    x = -magnitude k ∧ x.abs = magnitude k := by
  have parts : x.toModel.unpack = (magnitude k).toModel.unpack.neg := by
    rw [magnitude_unpack plain]
    exact minus_unpack code plain
  constructor
  · rw [← packed_double x, parts]
    rfl
  · change Float.ofModel (Float.Model.pack x.toModel.unpack.abs) = _
    rw [parts, (plus_abs (magnitude_plus plain)).2, packed_double]

/-- The code of a finite magnitude. -/
def Dyadic.code (d : Dyadic) : Nat := (d.exponent + 1074).toNat * 2 ^ 52 + d.mantissa

/-- A mantissa of 53 bits, or of fewer at the least exponent. -/
structure Dyadic.Canonical (d : Dyadic) : Prop where
  short : d.mantissa < 2 ^ 53
  least : -1074 ≤ d.exponent
  most : d.exponent ≤ 971
  full : d.exponent = -1074 ∨ 2 ^ 52 ≤ d.mantissa

-- A finite double by the fields of its code: the mantissa has its leading bit where there is an exponent.
theorem dyadic_cases (known : dyadic? x = some d) :
    (x.toBits.toNat / 2 ^ 52 % 2048 = 0 ∧ d = ⟨decide (2 ^ 63 ≤ x.toBits.toNat), x.toBits.toNat % 2 ^ 52, -1074⟩) ∨
    ∃ f : Nat, x.toBits.toNat / 2 ^ 52 % 2048 = f ∧ 0 < f ∧ f < 2047 ∧
      d = ⟨decide (2 ^ 63 ≤ x.toBits.toNat), 2 ^ 52 + x.toBits.toNat % 2 ^ 52, f - 1075⟩ := by
  unfold dyadic? at known
  dsimp only at known
  rw [Nat.pow_eq, Nat.pow_eq] at known
  split at known
  · cases known
  · rename_i finite
    split at known
    · rename_i low
      exact .inl ⟨low, (Option.some.inj known).symm⟩
    · rename_i high
      exact .inr ⟨_, rfl, by omega, by omega, (Option.some.inj known).symm⟩

theorem dyadic_canonical (known : dyadic? x = some d) : d.Canonical := by
  rcases dyadic_cases known with ⟨low, rfl⟩ | ⟨f, field, positive, finite, rfl⟩
  · exact ⟨by dsimp only; omega, Int.le_refl _, by dsimp only; omega, .inl rfl⟩
  · exact ⟨by dsimp only; omega, by dsimp only; omega, by dsimp only; omega, .inr (by dsimp only; omega)⟩

theorem dyadic_magnitude (known : dyadic? x = some d) :
    d.negative = decide (2 ^ 63 ≤ x.toBits.toNat) ∧ d.code = x.toBits.toNat % 2 ^ 63 ∧ d.code < infinityCode := by
  have size := x.toBits.toNat_lt
  unfold Dyadic.code infinityCode
  rcases dyadic_cases known with ⟨low, rfl⟩ | ⟨f, field, positive, finite, rfl⟩
  · refine ⟨rfl, ?_, ?_⟩ <;>
      · dsimp only
        omega
  · refine ⟨rfl, ?_, ?_⟩ <;>
      · dsimp only
        omega

theorem dyadic_code (known : dyadic? x = some d) :
    x.toBits.toNat = (if d.negative then 2 ^ 63 else 0) + d.code ∧ d.code < infinityCode ∧ d.Canonical := by
  have size := x.toBits.toNat_lt
  obtain ⟨sign, code, finite⟩ := dyadic_magnitude known
  refine ⟨?_, finite, dyadic_canonical known⟩
  rw [sign, code]
  by_cases minus : 2 ^ 63 ≤ x.toBits.toNat
  · rw [decide_eq_true minus, if_pos rfl]
    omega
  · rw [decide_eq_false minus, if_neg Bool.false_ne_true]
    omega

-- A finite double is the magnitude of its parts under its sign.
theorem finite_double (known : dyadic? x = some d) :
    x = (if d.negative then -magnitude d.code else magnitude d.code) ∧ x.abs = magnitude d.code := by
  obtain ⟨code, finite, -⟩ := dyadic_code known
  cases sign : d.negative with
  | false =>
    rw [sign, if_neg Bool.false_ne_true, Nat.zero_add] at code
    rw [if_neg Bool.false_ne_true]
    exact plus_double code (Nat.le_of_lt finite)
  | true =>
    rw [sign, if_pos rfl] at code
    rw [if_pos rfl]
    exact minus_double code (Nat.le_of_lt finite)

-- A double without a finite value is the NaN or one of the infinities.
theorem not_finite_double (none : dyadic? x = .none) : x.isNaN = true ∨ x.isInf = true := by
  have exponent := exponent_code x.toModel.toBits.toBitVec
  have top : @unpackExponent binary64 x.toModel.toBits.toBitVec = -1#_ := by
    refine BitVec.eq_of_toNat_eq (exponent.trans ?_)
    unfold dyadic? at none
    dsimp only at none
    rw [Nat.pow_eq, Nat.pow_eq] at none
    split at none
    · assumption
    · split at none <;> cases none
  change (UnpackedFloat.unpack binary64 x.toModel.toBits.toBitVec).isNaN = true ∨
    (UnpackedFloat.unpack binary64 x.toModel.toBits.toBitVec).isInf = true
  have fields := unpack_cases x.toModel.toBits.toBitVec
  generalize UnpackedFloat.unpack binary64 x.toModel.toBits.toBitVec = u at fields ⊢
  cases fields with
  | notANumber => exact .inl rfl
  | infinity => exact .inr rfl
  | zero low => exact absurd (low.symm.trans top) (by decide)
  | subnormal low => exact absurd (low.symm.trans top) (by decide)
  | normal other => exact absurd top other

theorem nan_double (nan : x.isNaN = true) : x = Float.ofBits 0x7ff8000000000000 := by
  have parts : x.toModel.unpack = .notANumber := by
    change x.toModel.unpack.isNaN = true at nan
    cases shape : x.toModel.unpack with
    | notANumber => rfl
    | _ => simp [shape, UnpackedFloat.isNaN] at nan
  exact double_ext (parts.trans rfl)

theorem infinite_double (infinite : x.isInf = true) :
    x = if x < 0 then -magnitude infinityCode else magnitude infinityCode := by
  change x.toModel.unpack.isInf = true at infinite
  cases shape : x.toModel.unpack with
  | infinity s =>
    cases s with
    | positive =>
      have above : ¬ x < 0 := fun less => by
        have strict : x.toModel.unpack.lt (0 : Float).toModel.unpack = true :=
          of_decide_eq_true (show x.lt 0 = true from less)
        rw [shape] at strict
        cases strict
      rw [if_neg above]
      exact double_ext (shape.trans rfl)
    | negative =>
      have below : x < 0 := by
        have strict : x.toModel.unpack.lt (0 : Float).toModel.unpack = true := by
          rw [shape]
          rfl
        exact decide_eq_true (p := x.toModel < (0 : Float).toModel) strict
      rw [if_pos below]
      exact double_ext (shape.trans rfl)
  | _ => simp [shape, UnpackedFloat.isInf] at infinite

end Signs
end PipelineMigration.Number
