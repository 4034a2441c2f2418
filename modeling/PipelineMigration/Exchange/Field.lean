import PipelineMigration.Json.Basic
import PipelineMigration.Number.Reading
set_option autoImplicit false

/- Values as JSON. A value that is missing or of another kind is taken as the usual one, and a
   number with a point is written as a text. -/
namespace PipelineMigration.Exchange

def member (name : String) (v : Json) : Json := (v.get? name.toList).getD .null

def text (v : Json) : Text := match v with
  | .string s => s
  | _ => []

def textOr (default : Text) (v : Json) : Text := match v with
  | .string s => s
  | _ => default

def text? (v : Json) : Option Text := match v with
  | .string s => some s
  | _ => none

def int (v : Json) : Int := match v with
  | .int n => n
  | .bool true => 1
  | _ => 0

def intOr (default : Int) (v : Json) : Int := match v with
  | .int n => n
  | _ => default

def nat (v : Json) : Nat := (int v).toNat

def boolOr (default : Bool) (v : Json) : Bool := match v with
  | .bool b => b
  | .int n => n != 0
  | _ => default

def items (v : Json) : List Json := match v with
  | .array vs => vs
  | _ => []

def members (v : Json) : List (Text × Json) := match v with
  | .object ms => ms
  | _ => []

def texts (v : Json) : List Text := (items v).map text

def floatOf (s : Text) : Float := (Number.readFloat? s).getD 0

def obj (ms : List (String × Json)) : Json := .ofMembers ms

def str (s : Text) : Json := .string s
def num (n : Nat) : Json := .int n
def arr {α : Type} (f : α → Json) (vs : List α) : Json := .array (vs.map f)
def opt {α : Type} (f : α → Json) : Option α → Json
  | some a => f a
  | none => .null
def flt (x : Float) : Json := .string (Number.floatText x)

def floatNumber? (v : Json) : Option Float := match v with
  | .int n => some (Number.nearest n 1)
  | .float x => some x
  | .string s => Number.readFloat? s
  | _ => none

def int? (v : Json) : Option Int := match v with
  | .int n => some n
  | _ => none

mutual

/-- A value with its numbers with a point as texts. -/
def floatsAsText : Json → Json
  | .float x => flt x
  | .array vs => .array (floatsAsTexts vs)
  | .object ms => .object (floatsInMembers ms)
  | v => v

def floatsAsTexts : List Json → List Json
  | [] => []
  | v :: rest => floatsAsText v :: floatsAsTexts rest

def floatsInMembers : List (Text × Json) → List (Text × Json)
  | [] => []
  | (name, v) :: rest => (name, floatsAsText v) :: floatsInMembers rest

end

end PipelineMigration.Exchange
