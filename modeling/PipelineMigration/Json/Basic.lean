import PipelineMigration.Keyed
import PipelineMigration.Number.Decimal
import PipelineMigration.Text.Quotation
set_option autoImplicit false

/- JSON values. Whole numbers and doubles are told apart by how they are written, and an object
   keeps the order in which its names first came. -/
namespace PipelineMigration

inductive Json where
  | null
  | bool (value : Bool)
  | int (value : Int)
  | float (value : Float)
  | string (value : Text)
  | array (items : List Json)
  | object (members : List (Text × Json))
deriving Inhabited

namespace Json

/-- The member of an object, nothing when the value is no object or lacks the name. -/
def get? (name : Text) : Json → Option Json
  | object members => Keyed.get? name members
  | _ => none

def ofMembers (members : List (String × Json)) : Json :=
  object (members.map fun (name, v) => (name.toList, v))
def strings (items : List Text) : Json := array (items.map string)
def nat (n : Nat) : Json := int n
def ofOption {α : Type} (f : α → Json) : Option α → Json
  | some a => f a
  | none => null

/-- The kind of a value inside messages. -/
def kindName : Json → Text
  | null => "NoneType"
  | bool _ => "bool"
  | int _ => "int"
  | float _ => "float"
  | string _ => "str"
  | array _ => "list"
  | object _ => "dict"

/-- Whether a value counts as true where a condition is expected. -/
def truthy : Json → Bool
  | null => false
  | bool b => b
  | int n => n != 0
  | float x => x != 0
  | string s => !s.isEmpty
  | array items => !items.isEmpty
  | object members => !members.isEmpty

mutual

/-- A value inside messages, texts in quotes. -/
def display : Json → Text
  | null => "None"
  | bool true => "True"
  | bool false => "False"
  | int n => Text.ofInt n
  | float x => Number.floatText x
  | string s => s.display
  | array items => "[" ++ Text.join ", " (displayItems items) ++ "]"
  | object members => "\x7b" ++ Text.join ", " (displayMembers members) ++ "\x7d"

def displayItems : List Json → List Text
  | [] => []
  | v :: rest => v.display :: displayItems rest

def displayMembers : List (Text × Json) → List Text
  | [] => []
  | (name, v) :: rest => (name.display ++ ": ".toList ++ v.display) :: displayMembers rest

end

/-- A value as the whole of a message, a text as it is. -/
def plain : Json → Text
  | string s => s
  | v => v.display

end Json
end PipelineMigration
