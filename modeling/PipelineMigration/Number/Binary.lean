set_option autoImplicit false

/- Doubles as exact numbers: a finite one is a mantissa times a power of two, and a quotient of
   whole numbers is rounded to the nearest double, ties to the even mantissa. -/
namespace PipelineMigration.Number

structure Dyadic where
  negative : Bool
  mantissa : Nat
  exponent : Int

/-- The value of a finite double; nothing for an infinity or a NaN. -/
def dyadic? (x : Float) : Option Dyadic :=
  let bits := x.toBits.toNat
  let biased : Nat := bits / Nat.pow 2 52 % 2048
  let fraction : Nat := bits % Nat.pow 2 52
  let negative := Nat.pow 2 63 ≤ bits
  if biased = 2047 then none
  else if biased = 0 then some ⟨negative, fraction, -1074⟩
  else some ⟨negative, Nat.pow 2 52 + fraction, (biased : Int) - 1075⟩

/-- The quotient to the nearest whole number, ties to even. -/
def roundDiv (num den : Nat) : Nat :=
  let q := num / den
  let twice := 2 * (num % den)
  if den < twice || (twice == den && q % 2 == 1) then q + 1 else q

/-- The rounded quotient is within half a unit. -/
theorem roundDiv_within (num den : Nat) (positive : 0 < den) :
    2 * num ≤ (2 * roundDiv num den + 1) * den ∧
      2 * roundDiv num den * den ≤ 2 * num + den := by
  have whole := Nat.div_add_mod num den
  have below := Nat.mod_lt num positive
  generalize hq : num / den = q at *
  generalize hr : num % den = r at *
  have expand : (2 * q + 1) * den = 2 * (den * q) + den := by
    rw [Nat.add_mul, Nat.one_mul, Nat.mul_assoc, Nat.mul_comm q]
  have expand' : (2 * (q + 1) + 1) * den = 2 * (den * q) + 3 * den := by
    rw [show 2 * (q + 1) + 1 = 2 * q + 3 by omega, Nat.add_mul, Nat.mul_assoc, Nat.mul_comm q]
  have double : 2 * q * den = 2 * (den * q) := by rw [Nat.mul_assoc, Nat.mul_comm q]
  have double' : 2 * (q + 1) * den = 2 * (den * q) + 2 * den := by
    rw [Nat.mul_add, Nat.add_mul, Nat.mul_assoc, Nat.mul_comm q]
  simp only [roundDiv, hq, hr]
  split <;> rename_i half
  · rw [expand', double']
    simp only [Bool.or_eq_true, decide_eq_true_eq, Bool.and_eq_true, beq_iff_eq] at half
    omega
  · rw [expand, double]
    simp only [Bool.or_eq_true, decide_eq_true_eq, not_or] at half
    omega

/-- `num / den * 2 ^ (-e)` to the nearest whole number. -/
def scaledRound (num den : Nat) (e : Int) : Nat :=
  if 0 ≤ e then roundDiv num (den * Nat.pow 2 e.toNat)
  else roundDiv (num * Nat.pow 2 (-e).toNat) den

/-- The least exponent, not below -1074, at which the quotient has at most 53 bits. -/
def quotientExponent (num den : Nat) : Int :=
  let guess : Int := (num.log2 : Int) - den.log2 - 53
  let fits : Bool := if 0 ≤ guess then num < Nat.pow 2 53 * (den * Nat.pow 2 guess.toNat)
    else num * Nat.pow 2 (-guess).toNat < Nat.pow 2 53 * den
  max (-1074) (if fits then guess else guess + 1)

/-- The double nearest to a quotient, infinite when that is out of range. -/
def nearestMagnitude (num den : Nat) : Float :=
  if num = 0 then 0 else
  let e := quotientExponent num den
  let bits := (e + 1074).toNat * Nat.pow 2 52 + scaledRound num den e
  Float.ofBits (if 0x7ff0000000000000 ≤ bits then 0x7ff0000000000000 else UInt64.ofNat bits)

def nearest (num : Int) (den : Nat) : Float :=
  if num < 0 then -nearestMagnitude num.natAbs den else nearestMagnitude num.natAbs den

/-- The double nearest to a whole number; nothing when that is out of range. -/
def ofInt? (n : Int) : Option Float :=
  let x := nearest n 1
  if x.isInf then none else some x

/-- A finite double without its fraction. -/
def truncate? (x : Float) : Option Int :=
  (dyadic? x).map fun d =>
    let size : Nat := if 0 ≤ d.exponent then d.mantissa * Nat.pow 2 d.exponent.toNat
      else d.mantissa / Nat.pow 2 (-d.exponent).toNat
    if d.negative then -(size : Int) else size

/-- `d` as a quotient of naturals, sign apart. -/
def Dyadic.quotient (d : Dyadic) : Nat × Nat :=
  if 0 ≤ d.exponent then (d.mantissa * Nat.pow 2 d.exponent.toNat, 1)
  else (d.mantissa, Nat.pow 2 (-d.exponent).toNat)

end PipelineMigration.Number
