import PipelineMigration.Json.Basic
set_option autoImplicit false

/- JSON text: on one line, in ASCII or not, or indented by two spaces with the names in order. -/
namespace PipelineMigration.Json

/-- A code unit of the escaped form. -/
def unitEscape (n : Nat) : Text := "\\u" ++ Text.hexDigits 4 n

/-- The escapes that have a letter. -/
def shortEscape? (c : Char) : Option Text :=
  if c == '"' then some "\\\"" else if c == '\\' then some "\\\\"
  else if c == '\n' then some "\\n" else if c == '\r' then some "\\r"
  else if c == '\t' then some "\\t" else if c == '\x08' then some "\\b"
  else if c == '\x0c' then some "\\f" else none

/-- A character in a text that need not be ASCII. -/
def escapeControl (c : Char) : Text :=
  match shortEscape? c with
  | some s => s
  | none => if c.toNat < 32 then unitEscape c.toNat else [c]

def escapeChar (c : Char) : Text :=
  if let some s := shortEscape? c then s
  else if 32 ≤ c.toNat && c.toNat < 127 then [c]
  else if c.toNat < 0x10000 then unitEscape c.toNat
  else
    let n := c.toNat - 0x10000
    unitEscape (0xd800 + n / 0x400) ++ unitEscape (0xdc00 + n % 0x400)

def quotedWith (escape : Char → Text) (s : Text) : Text := '"' :: s.flatMap escape ++ ['"']
def quoted (s : Text) : Text := quotedWith escapeChar s

def floatLiteral (x : Float) : Text :=
  if x.isNaN then "NaN" else if x.isInf then (if x < 0 then "-Infinity" else "Infinity")
  else Number.floatText x

mutual

/-- On one line, the characters of texts escaped in a given way. -/
def compactWith (escape : Char → Text) : Json → Text
  | null => "null"
  | bool true => "true"
  | bool false => "false"
  | int n => Text.ofInt n
  | float x => floatLiteral x
  | string s => quotedWith escape s
  | array items => "[" ++ Text.join "," (compactItems escape items) ++ "]"
  | object members => "\x7b" ++ Text.join "," (compactMembers escape members) ++ "\x7d"

def compactItems (escape : Char → Text) : List Json → List Text
  | [] => []
  | v :: rest => v.compactWith escape :: compactItems escape rest

def compactMembers (escape : Char → Text) : List (Text × Json) → List Text
  | [] => []
  | (name, v) :: rest =>
    (quotedWith escape name ++ ':' :: v.compactWith escape) :: compactMembers escape rest

end

/-- On one line in ASCII. -/
def compact (v : Json) : Text := v.compactWith escapeChar

/-- On one line, characters beyond ASCII as they are. -/
def compactUnicode (v : Json) : Text := v.compactWith escapeControl

/-- Lines inside brackets, each on a line of its own and two spaces deeper. -/
def block (opening closing : Text) (depth : Nat) (lines : List Text) : Text :=
  if lines.isEmpty then opening ++ closing
  else
    let newLine := '\n' :: List.replicate (2 * (depth + 1)) ' '
    opening ++ newLine ++ Text.join (',' :: newLine) lines ++ '\n' ::
      List.replicate (2 * depth) ' ' ++ closing

mutual

/-- The indented form, names in order, at a depth of nesting. -/
def indented (depth : Nat) : Json → Text
  | array items => block "[" "]" depth (indentedItems (depth + 1) items)
  | object members =>
    block "\x7b" "\x7d" depth
      (((indentedMembers (depth + 1) members).mergeSort fun a b => Text.notAfter a.1 b.1).map (·.2))
  | v => v.compact

def indentedItems (depth : Nat) : List Json → List Text
  | [] => []
  | v :: rest => v.indented depth :: indentedItems depth rest

def indentedMembers (depth : Nat) : List (Text × Json) → List (Text × Text)
  | [] => []
  | (name, v) :: rest =>
    (name, quoted name ++ ": ".toList ++ v.indented depth) :: indentedMembers depth rest

end

def pretty (v : Json) : Text := v.indented 0

end PipelineMigration.Json
