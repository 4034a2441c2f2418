import PipelineMigration.Text.Quotation
set_option autoImplicit false

/- Whole numbers as text. Reading takes the decimal digits of every numbering, an optional sign
   and single underscores between digits; both directions refuse more than 4300 digits. -/
namespace PipelineMigration.Number

def digitLimit : Nat := 4300

inductive IntegerError where
  | malformed (text : Text)
  | tooLongToRead (digits : Nat)
  | tooLongToWrite
deriving DecidableEq

def IntegerError.message : IntegerError → Text
  | .malformed text => "invalid literal for int() with base 10: " ++ (text.display).take 200
  | .tooLongToRead digits =>
    "Exceeds the limit (4300 digits) for integer string conversion: value has " ++
      Text.ofNat digits ++ " digits; use sys.set_int_max_str_digits() to increase the limit"
  | .tooLongToWrite =>
    "Exceeds the limit (4300 digits) for integer string conversion; " ++
      "use sys.set_int_max_str_digits() to increase the limit"

/-- Blanks that may surround a number: all but the separators U+001C to U+001F. -/
def isPadding (c : Char) : Bool := Text.isBlank c && !(28 ≤ c.toNat && c.toNat ≤ 31)

/-- The first number that a signed word of 64 bits does not hold. -/
def wordBound : Int := 9223372036854775808

/-- The digits at the front of a text, an underscore standing between two of them, and what
    follows; nothing when an underscore is misplaced. `last` tells whether a digit came just
    before. -/
def takeDigits (last : Bool) : Text → Option (List Nat × Text)
  | [] => if last then some ([], []) else none
  | c :: r => match Text.decimalValue? c with
    | some d => (takeDigits true r).map fun (ds, rest) => (d :: ds, rest)
    | none =>
      if c == '_' then if last then takeDigits false r else none
      else if last then some ([], c :: r) else none

def ofDigits (ds : List Nat) : Nat := ds.foldl (fun n d => 10 * n + d) 0

def splitSign : Text → Bool × Text
  | '-' :: r => (true, r)
  | '+' :: r => (false, r)
  | s => (false, s)

def readInteger (s : Text) : Except IntegerError Int :=
  let (negative, body) := splitSign (Text.trimLeftBy isPadding s)
  match takeDigits false body with
  | none => .error (.malformed s)
  | some (ds, rest) =>
    if digitLimit < ds.length then .error (.tooLongToRead ds.length)
    else if !rest.all isPadding then .error (.malformed s)
    else .ok (if negative then -(ofDigits ds : Int) else ofDigits ds)

def writeInteger (n : Int) : Except IntegerError Text :=
  if Nat.pow 10 digitLimit ≤ n.natAbs then .error .tooLongToWrite else .ok (Text.ofInt n)

end PipelineMigration.Number
