import PipelineMigration.Text.LetterCase
import PipelineMigration.Number.Integer
import PipelineMigration.Number.Binary
set_option autoImplicit false

/- Decimal text read as the nearest double: an optional sign, digits with single underscores
   between them, a point, an exponent, or one of the words for an infinity and a NaN. -/
namespace PipelineMigration.Number

/-- `n * 10 ^ e` to the nearest double. Far exponents are decided without computing the power. -/
def ofScientific (n : Nat) (e : Int) : Float :=
  if n = 0 then 0
  else
    let power := ((Text.ofNat n).length : Int) + e
    if 400 < power then Float.ofBits 0x7ff0000000000000
    else if power < -400 then 0
    else if 0 ≤ e then nearestMagnitude (n * Nat.pow 10 e.toNat) 1
    else nearestMagnitude n (Nat.pow 10 (-e).toNat)

/-- Removes underscores that stand between two ASCII digits; nothing when one stands elsewhere. -/
def dropUnderscores (last : Char) : Text → Option Text
  | [] => if last == '_' then none else some []
  | c :: r =>
    if c == '_' then if Text.isAsciiDigit last then dropUnderscores c r else none
    else if last == '_' && !Text.isAsciiDigit c then none
    else (dropUnderscores c r).map (c :: ·)

/-- A run of ASCII digits at the front, as a list of values. -/
def spanDigits (s : Text) : List Nat × Text :=
  ((s.takeWhile Text.isAsciiDigit).map (·.toNat - 48), s.dropWhile Text.isAsciiDigit)

/-- The exponent after its mark: an optional sign and digits to the end. -/
def exponent? (s : Text) : Option Int :=
  let (negative, body) := splitSign s
  match spanDigits body with
  | ([], _) => none
  | (ds, []) => some (if negative then -(ofDigits ds : Int) else ofDigits ds)
  | _ => none

def magnitude? (s : Text) : Option Float :=
  let (whole, rest) := spanDigits s
  let (fraction, rest) := match rest with
    | '.' :: r => spanDigits r
    | r => ([], r)
  if whole.isEmpty && fraction.isEmpty then none
  else
    let n := ofDigits (whole ++ fraction)
    let shift := -(fraction.length : Int)
    match rest with
    | [] => some (ofScientific n shift)
    | c :: r => if c == 'e' || c == 'E' then (exponent? r).map fun e => ofScientific n (shift + e)
      else none

def word? (s : Text) : Option Float :=
  let w := s.map Char.toLower
  if w = "inf" || w = "infinity" then some (Float.ofBits 0x7ff0000000000000)
  else if w = "nan" then some (Float.ofBits 0x7ff8000000000000)
  else none

/-- Decimal digits of every numbering as ASCII digits. -/
def toAsciiDigit (c : Char) : Char :=
  match Text.decimalValue? c with
  | some d => Char.ofNat (48 + d)
  | none => c

/-- A double from its text; nothing when the text is no number. -/
def readFloat? (s : Text) : Option Float := do
  let plain ← dropUnderscores ' ' ((Text.trimBy isPadding s).map toAsciiDigit)
  let (negative, body) := splitSign plain
  let x ← (word? body).or (magnitude? body)
  some (if negative then -x else x)

def notAFloat (s : Text) : Text := "could not convert string to float: " ++ s.display

end PipelineMigration.Number
