import PipelineMigration.Text.Quotation
set_option autoImplicit false

/- Texts as YAML scalars on one line. -/
namespace PipelineMigration.Yaml

/-- Characters that a reader refuses or takes for line breaks when they stand bare. -/
def isUnreadable (c : Char) : Bool :=
  let n := c.toNat
  (0x7f ≤ n && n ≤ 0x9f) || n == 0x2028 || n == 0x2029 || n == 0xfffe || n == 0xffff

def quoteChar (c : Char) : Text :=
  if c == '"' then "\\\"" else if c == '\\' then "\\\\"
  else if c == '\n' then "\\n" else if c == '\r' then "\\r" else if c == '\t' then "\\t"
  else if c == '\x08' then "\\b" else if c == '\x0c' then "\\f"
  else if c.toNat < 32 || isUnreadable c then "\\u" ++ Text.hexDigits 4 c.toNat
  else [c]

/-- A scalar in double quotes. -/
def quote (s : Text) : Text := '"' :: s.flatMap quoteChar ++ ['"']

/-- A scalar in single quotes, which escapes nothing but the quote itself. -/
def singleQuote (s : Text) : Text :=
  '\'' :: s.flatMap (fun c => if c == '\'' then ['\'', '\''] else [c]) ++ ['\'']

/-- A key, bare when it is an identifier. -/
def key (name : Text) : Text := if Text.isIdentifier name then name else quote name

/-- Scalars in double quotes as a list on one line. -/
def quotedList (items : List Text) : Text :=
  "[" ++ Text.join ", " (items.map quote) ++ "]"

end PipelineMigration.Yaml
