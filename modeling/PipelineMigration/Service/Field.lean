import PipelineMigration.Json.Basic
import PipelineMigration.Number.Integer
set_option autoImplicit false

/- Fields of requests. A value is taken where its meaning is plain, also from another type: a
   truth value from a word, a whole number from a text. All faults of a request are found, each
   with its place. -/
namespace PipelineMigration.Service

inductive FieldFault where
  | missing | text | tooLong | truthWord | truth | whole | wholeText | fraction | infinite
  | tooManyDigits
  | tooSmall | tooLarge | choice | mapping | members | document
deriving DecidableEq

def FieldFault.name : FieldFault → Text
  | missing => "missing"
  | text => "string_type"
  | tooLong => "string_too_long"
  | truthWord => "bool_parsing"
  | truth => "bool_type"
  | whole => "int_type"
  | wholeText => "int_parsing"
  | fraction => "int_from_float"
  | infinite => "finite_number"
  | tooManyDigits => "int_parsing_size"
  | tooSmall => "greater_than_equal"
  | tooLarge => "less_than_equal"
  | choice => "enum"
  | mapping => "dict_type"
  | members => "model_attributes_type"
  | document => "json_invalid"

/-- A step to a place inside a request. -/
inductive Step where
  | name (name : Text)
  | index (n : Nat)
deriving DecidableEq

abbrev Place := List Step

structure PlacedFault where
  fault : FieldFault
  place : Place
deriving DecidableEq

/-- A value, or all the faults that keep it from being read. -/
abbrev Checked (α : Type) := Except (List PlacedFault) α

namespace Checked

def faulty {α : Type} (place : Place) (fault : FieldFault) : Checked α := .error [⟨fault, place⟩]

/-- Applies a checked function; the faults of both sides count. -/
def on {α β : Type} (f : Checked (α → β)) (a : Checked α) : Checked β :=
  match f, a with
  | .ok f, .ok a => .ok (f a)
  | .error e, .ok _ => .error e
  | .ok _, .error e => .error e
  | .error e, .error e' => .error (e ++ e')

/-- Every member's value, the faults of all of them together. -/
def all {α : Type} : List (Checked α) → Checked (List α)
  | [] => .ok []
  | a :: rest => on (a.map List.cons) (all rest)

end Checked

/-- How a value is taken at a place. -/
abbrev Take (α : Type) := Place → Json → Checked α

namespace Take

def text : Take Text
  | _, .string s => .ok s
  | place, _ => .faulty place .text

/-- A text of bounded length. -/
def textUpTo (limit : Nat) : Take Text
  | place, .string s => if limit < s.length then .faulty place .tooLong else .ok s
  | place, _ => .faulty place .text

/-- A value that may be left empty. -/
def optional {α : Type} (take : Take α) : Take (Option α)
  | _, .null => .ok none
  | place, v => (take place v).map some

def trueWords : List Text := ["1", "on", "t", "true", "y", "yes"]
def falseWords : List Text := ["0", "off", "f", "false", "n", "no"]

def truth : Take Bool
  | _, .bool b => .ok b
  | place, .string s =>
    let word := s.map Char.toLower
    if trueWords.contains word then .ok true
    else if falseWords.contains word then .ok false
    else .faulty place .truthWord
  | place, .int n =>
    if n = 0 then .ok false else if n = 1 then .ok true
    else if -Number.wordBound ≤ n ∧ n < Number.wordBound then .faulty place .truthWord
    else .faulty place .truth
  | place, .float x => match Number.truncate? x with
    | none => .faulty place .truth
    | some n =>
      if Number.nearest n 1 != x then .faulty place .truth
      else if n = 0 then .ok false else if n = 1 then .ok true
      else if -Number.wordBound < n ∧ n < Number.wordBound then .faulty place .truthWord
      else .faulty place .truth
  | place, _ => .faulty place .truth

/-- A text without zeros before other digits, an underscore allowed after a zero; the last zero
    of several stays. -/
def withoutZeros : Text → Option Text
  | ['0'] => some ['0']
  | '0' :: '.' :: r => some ('0' :: '.' :: r)
  | '0' :: '_' :: c :: r => if Text.isAsciiDigit c then withoutZeros (c :: r) else none
  | '0' :: c :: r => if Text.isAsciiDigit c then withoutZeros (c :: r) else none
  | c :: r => if Text.isAsciiDigit c then some (c :: r) else none
  | [] => none
termination_by s => s.length

/-- A text without a fraction of zeros. -/
def withoutFraction (s : Text) : Text :=
  match Text.splitOnce "." s with
  | some (whole, zeros) => if zeros.all (· == '0') then whole else s
  | none => s

/-- Single underscores between other characters are dropped, any others stay. -/
def withoutUnderscores (s : Text) : Text :=
  if s.head? == some '_' || s.getLast? == some '_' || Text.hasPart s "__" then s
  else s.filter (· != '_')

def digitsValue? (s : Text) : Option Nat :=
  if !s.isEmpty && s.all Text.isAsciiDigit && !(1 < s.length && s.head? == some '0') then
    some (s.foldl (fun n c => 10 * n + (c.toNat - 48)) 0)
  else none

/-- A whole number in a text: a sign, digits with single underscores, a fraction of zeros. Zeros
    may lead a number without a minus. -/
def wholeOfText? (s : Text) : Option Int :=
  let s := Text.trimBy Number.isPadding s
  match s with
  | '-' :: r => ((digitsValue? (withoutUnderscores (withoutFraction r))).map fun n => -(n : Int))
  | '+' :: r => unsigned r
  | r => unsigned r
where
  unsigned (s : Text) : Option Int :=
    ((withoutZeros s).bind fun t => digitsValue? (withoutUnderscores (withoutFraction t))).map
      Int.ofNat

def whole : Take Int
  | _, .int n => .ok n
  | _, .bool b => .ok (if b then 1 else 0)
  | place, .string s =>
    if Number.digitLimit < s.length then .faulty place .tooManyDigits
    else match wholeOfText? s with
      | some n => .ok n
      | none => .faulty place .wholeText
  | place, .float x => match Number.truncate? x with
    | none => .faulty place .infinite
    | some n =>
      if Number.nearest n 1 != x then .faulty place .fraction
      else if -Number.wordBound < n ∧ n < Number.wordBound then .ok n
      else .faulty place .tooManyDigits
  | place, _ => .faulty place .whole

/-- A whole number with a least value and perhaps a greatest one. -/
def wholeWithin (least : Int) (greatest : Option Int) : Take Int := fun place v => do
  let n ← whole place v
  if n < least then .faulty place .tooSmall
  else if greatest.any (· < n) then .faulty place .tooLarge
  else .ok n

/-- One of several named values. -/
def choice {α : Type} (ofName? : Text → Option α) : Take α
  | place, .string s => match ofName? s with
    | some a => .ok a
    | none => .faulty place .choice
  | place, _ => .faulty place .choice

/-- Values by name. -/
def mapping {α : Type} (take : Take α) : Take (List (Text × α))
  | place, .object ms =>
    .all (ms.map fun (k, v) => (take (place ++ [.name k]) v).map fun a => (k, a))
  | place, _ => .faulty place .mapping

/-- A member of an object, which has to be there. -/
def required {α : Type} (ms : List (Text × Json)) (name : String) (take : Take α)
    (place : Place) : Checked α :=
  let place := place ++ [.name name.toList]
  match Keyed.get? name.toList ms with
  | some v => take place v
  | none => .faulty place .missing

/-- A member of an object, with the value that it has when it is left out. -/
def usual {α : Type} (ms : List (Text × Json)) (name : String) (default : α) (take : Take α)
    (place : Place) : Checked α :=
  match Keyed.get? name.toList ms with
  | some v => take (place ++ [.name name.toList]) v
  | none => .ok default

end Take
end PipelineMigration.Service
