import PipelineMigration.Json.Reader
import PipelineMigration.Keyed
set_option autoImplicit false

/- Addresses of requests: a path, and a query behind a question mark. Characters may be written
   as the hexadecimal codes of their bytes. -/
namespace PipelineMigration.Service

structure Address where
  path : Text
  query : Option (List (Text × Text)) := none

namespace Address

/-- The bytes of a text in which a percent sign and two hexadecimal digits stand for a byte. -/
def bytes : Text → List UInt8
  | '%' :: a :: b :: r => match Json.hexValue? a, Json.hexValue? b with
    | some high, some low => UInt8.ofNat (16 * high + low) :: bytes r
    | _, _ => 37 :: bytes (a :: b :: r)
  | c :: r => (String.singleton c).toUTF8.toList ++ bytes r
  | [] => []
termination_by s => s.length

/-- The text that codes stand for; codes that make no text stay as they are. -/
def decoded (s : Text) : Text :=
  match String.fromUTF8? ⟨(bytes s).toArray⟩ with
  | some t => t.toList
  | none => s

/-- A name and a value around an equals sign, a plus sign standing for a space. -/
def queryPair (s : Text) : Text × Text :=
  let plain (t : Text) : Text := decoded (t.map fun c => if c == '+' then ' ' else c)
  match Text.splitOnce "=" s with
  | some (name, value) => (plain name, plain value)
  | none => (plain s, [])

def queryPairs (s : Text) : List (Text × Text) :=
  ((Text.splitWhere (· == '&') s).filter fun t => !t.isEmpty).map queryPair

def read (s : Text) : Address :=
  let (s, _) := (Text.splitOnce "#" s).getD (s, [])
  match Text.splitOnce "?" s with
  | some (path, query) => { path := decoded path, query := some (queryPairs query) }
  | none => { path := decoded s }

end Address
end PipelineMigration.Service
