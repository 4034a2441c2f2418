import PipelineMigration.Text.Basic
import PipelineMigration.Number.Binary
set_option autoImplicit false

/- Doubles as decimal text: with a fixed number of places, or with the fewest digits that read
   back as the same double. -/
namespace PipelineMigration.Number

def padLeft (width : Nat) (s : Text) : Text := List.replicate (width - s.length) '0' ++ s

/-- `n / 10 ^ places` written with a point. -/
def pointed (places n : Nat) : Text :=
  let digits := padLeft (places + 1) (Text.ofNat n)
  let whole := digits.take (digits.length - places)
  if places = 0 then whole else whole ++ '.' :: digits.drop (digits.length - places)

def nonFinite (x : Float) : Text :=
  if x.isNaN then "nan" else if x < 0 then "-inf" else "inf"

/-- The value to `places` places, a tie going to the even neighbour. -/
def fixed (places : Nat) (x : Float) : Text :=
  match dyadic? x with
  | none => nonFinite x
  | some d =>
    let (num, den) := d.quotient
    let text := pointed places (roundDiv (num * Nat.pow 10 places) den)
    if d.negative then '-' :: text else text

/-- The double nearest to the value rounded to `places` places. -/
def roundTo (places : Nat) (x : Float) : Float :=
  match dyadic? x with
  | none => x
  | some d =>
    let (num, den) := d.quotient
    let y := nearestMagnitude (roundDiv (num * Nat.pow 10 places) den) (Nat.pow 10 places)
    if d.negative then -y else y

/-- A percentage without places. -/
def percent (x : Float) : Text := fixed 0 (x * 100) ++ "%"

/-- Whether the decimal `n * 10 ^ e` reads back as `x`. -/
def readsBack (x : Float) (n : Nat) (e : Int) : Bool :=
  let y := if 0 ≤ e then nearestMagnitude (n * Nat.pow 10 e.toNat) 1
    else nearestMagnitude n (Nat.pow 10 (-e).toNat)
  y == x

/-- Whether `n * 10 ^ e` is nearer to `num / den` than `(n + 1) * 10 ^ e`, a tie going to the
    even one. -/
def lowerNearer (num den n : Nat) (e : Int) : Bool :=
  let (value, middle) := if 0 ≤ e then (2 * num, (2 * n + 1) * Nat.pow 10 e.toNat * den)
    else (2 * num * Nat.pow 10 (-e).toNat, (2 * n + 1) * den)
  value < middle || (value == middle && n % 2 == 0)

/-- The decimal on the grid `10 ^ e` that reads back as `x = num / den`, the nearer of two. -/
def onGrid? (x : Float) (num den : Nat) (e : Int) : Option Nat :=
  let n := if 0 ≤ e then num / (den * Nat.pow 10 e.toNat) else num * Nat.pow 10 (-e).toNat / den
  match readsBack x n e, readsBack x (n + 1) e with
  | true, true => some (if lowerNearer num den n e then n else n + 1)
  | true, false => some n
  | false, true => some (n + 1)
  | false, false => none

/-- The decimal exponent of the first digit of `num / den`. -/
def leadingPower (num den : Nat) : Int :=
  if den ≤ num then ((Text.ofNat (num / den)).length : Int) - 1
  else
    let guess := (Text.ofNat (den / num)).length
    if den ≤ num * Nat.pow 10 (guess - 1) then -((guess : Int) - 1) else -(guess : Int)

/-- Tries grids of ever more digits. -/
def firstGrid (x : Float) (num den : Nat) (top : Int) : Nat → Nat → Nat × Int
  | 0, count => (num / den, top - count)
  | fuel + 1, count =>
    let e := top - (count : Int)
    match onGrid? x num den e with
    | some n => (n, e)
    | none => firstGrid x num den top fuel (count + 1)

/-- Removes zeros at the end of `n`, at most `fuel` of them. -/
def dropZeros : Nat → Nat → Int → Nat × Int
  | 0, n, e => (n, e)
  | fuel + 1, n, e => if n % 10 = 0 ∧ n ≠ 0 then dropZeros fuel (n / 10) (e + 1) else (n, e)

/-- The shortest decimal `n * 10 ^ e` of a positive double, and of those the nearest. -/
def shortest (x : Float) (num den : Nat) : Nat × Int :=
  let (n, e) := firstGrid x num den (leadingPower num den) 18 0
  dropZeros 20 n e

/-- The point stands inside the digits from 1e-4 to below 1e16, with at least one place; beyond
    that the first digit is followed by the rest and a signed exponent of two digits or more. -/
def layout (n : Nat) (e : Int) : Text :=
  let digits := Text.ofNat n
  let power := (digits.length : Int) - 1 + e
  if -4 ≤ power ∧ power < 16 then
    if 0 ≤ e then digits ++ List.replicate e.toNat '0' ++ ".0"
    else pointed (-e).toNat n
  else
    let mark : Text := if power < 0 then "e-" else "e+"
    digits.take 1 ++ (if digits.length = 1 then [] else '.' :: digits.drop 1) ++
      mark ++ padLeft 2 (Text.ofNat power.natAbs)

/-- The fewest digits that read back as the same double, always with a fraction or exponent. -/
def floatText (x : Float) : Text :=
  match dyadic? x with
  | none => nonFinite x
  | some d =>
    let size : Text := if d.mantissa = 0 then "0.0" else
      let (num, den) := d.quotient
      let (n, e) := shortest x.abs num den
      layout n e
    if d.negative then '-' :: size else size

end PipelineMigration.Number
