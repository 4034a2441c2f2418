import PipelineMigration.Number.Decimal
import PipelineMigration.Text.Quotation
import PipelineMigration.Timestamp
set_option autoImplicit false

/- What a YAML document says: scalars and collections of values. -/
namespace PipelineMigration.Yaml

inductive Value where
  | null
  | bool (b : Bool)
  | int (n : Int)
  | float (x : Float)
  | text (s : Text)
  | bytes (bs : List Nat)
  | date (t : Timestamp)
  | time (t : Timestamp)
  /-- An entry of an ordered mapping. -/
  | pair (key value : Value)
  | list (items : List Value)
  | mapping (entries : List (Value × Value))
  | set (members : List Value)
  /-- A mention, inside a list or mapping, of that same list or mapping. -/
  | recurrence (isMapping : Bool)
deriving Inhabited

namespace Value

/-- A number as a quotient; the two truth values are one and zero. -/
def quotient? : Value → Option (Int × Nat)
  | bool b => some (if b then 1 else 0, 1)
  | int n => some (n, 1)
  | float x => (Number.dyadic? x).map fun d =>
    (if d.negative then -(d.quotient.1 : Int) else d.quotient.1, d.quotient.2)
  | _ => none

/-- Whether two floats without a finite value are the same; a NaN is the same as itself. -/
def sameBeyond : Value → Value → Bool
  | float x, float y => (x.isNaN && y.isNaN) || (!x.isNaN && !y.isNaN && x == y)
  | _, _ => false

def sameScalar : Value → Value → Bool
  | null, null => true
  | text s, text t => s == t
  | bytes a, bytes b => a == b
  | date a, date b => a == b
  | time a, time b => a.agrees b
  | a, b => match a.quotient?, b.quotient? with
    | some (m, d), some (n, e) => m * e == n * d
    | _, _ => sameBeyond a b

/-- Whether two values are one and the same key. -/
def same : Value → Value → Bool
  | pair a b, pair c d => same a c && same b d
  | a, b => sameScalar a b

/-- The kind of a collection that cannot be a key or a member of a set, first within a pair. -/
def unhashable? : Value → Option String
  | list _ => some "list"
  | mapping _ => some "dict"
  | set _ => some "set"
  | recurrence isMapping => some (if isMapping then "dict" else "list")
  | pair a b => a.unhashable?.or b.unhashable?
  | _ => none

/-- Whether a value counts as absent where a collection is expected. -/
def isEmpty : Value → Bool
  | null => true
  | bool b => !b
  | int n => n == 0
  | float x => x == 0
  | text s => s.isEmpty
  | bytes bs => bs.isEmpty
  | list items => items.isEmpty
  | mapping entries => entries.isEmpty
  | set members => members.isEmpty
  | _ => false

/-- The kind of a value that has no items. -/
def kindName : Value → String
  | null => "NoneType"
  | bool _ => "bool"
  | int _ => "int"
  | float _ => "float"
  | text _ => "str"
  | bytes _ => "bytes"
  | date _ => "datetime.date"
  | time _ => "datetime.datetime"
  | pair _ _ => "tuple"
  | list _ => "list"
  | mapping _ => "dict"
  | set _ => "set"
  | recurrence isMapping => if isMapping then "dict" else "list"

/-- The items of a value that has items: characters, bytes, keys. -/
def items? : Value → Option (List Value)
  | text s => some (s.map fun c => text [c])
  | bytes bs => some (bs.map fun b => int (b : Nat))
  | pair a b => some [a, b]
  | list items => some items
  | mapping entries => some (entries.map (·.1))
  | set members => some members
  | recurrence _ => some []
  | _ => none

def byteText (mark : Char) (b : Nat) : Text :=
  let c := Char.ofNat b
  if c == mark || c == '\\' then ['\\', c]
  else if c == '\n' then "\\n" else if c == '\r' then "\\r" else if c == '\t' then "\\t"
  else if 32 ≤ b && b < 127 then [c]
  else "\\x" ++ Text.hexDigits 2 b

def bytesText (bs : List Nat) : Text :=
  let mark := if bs.contains 39 && !bs.contains 34 then '"' else '\''
  'b' :: mark :: bs.flatMap (byteText mark) ++ [mark]

def zoneText (offset : Int) : Text :=
  if offset == 0 then "datetime.timezone.utc"
  else
    let days := Int.fdiv offset 86400000000
    let seconds := Int.fmod offset 86400000000 / 1000000
    let parts := (if days == 0 then [] else ["days=".toList ++ Text.ofInt days]) ++
      if seconds == 0 then [] else ["seconds=".toList ++ Text.ofInt seconds]
    "datetime.timezone(datetime.timedelta(" ++ Text.join ", " parts ++ "))"

/-- The numbers of a time of day, zeros at the end left out down to the minute. -/
def clockNumbers (t : Timestamp) : List Nat :=
  [t.hour, t.minute] ++
    if t.microsecond ≠ 0 then [t.second, t.microsecond]
    else if t.second ≠ 0 then [t.second] else []

def dateNumbers (t : Timestamp) : List Nat := [t.year, t.month, t.day]

def callText (name : String) (arguments : List Text) : Text :=
  name.toList ++ '(' :: Text.join ", " arguments ++ [')']

/-- A scalar inside a pair, as it is displayed there. -/
def display : Value → Text
  | null => "None"
  | bool b => if b then "True" else "False"
  | int n => Text.ofInt n
  | float x => Number.floatText x
  | text s => s.display
  | bytes bs => bytesText bs
  | date t => callText "datetime.date" ((dateNumbers t).map Text.ofNat)
  | time t => callText "datetime.datetime" <|
    (dateNumbers t ++ clockNumbers t).map Text.ofNat ++
      (t.offset.map fun offset => "tzinfo=".toList ++ zoneText offset).toList
  | pair a b => "(" ++ display a ++ ", " ++ display b ++ ")"
  | v => v.kindName.toList

/-- A scalar inside a message. -/
def plain : Value → Text
  | text s => s
  | date t => t.dateText
  | time t => t.textWith ' '
  | v => v.display

/-- Whether a whole number with too many digits to write is part of a value. -/
def isTooLong : Value → Bool
  | int n => Nat.pow 10 4300 ≤ n.natAbs
  | pair a b => a.isTooLong || b.isTooLong
  | _ => false

end Value
end PipelineMigration.Yaml
