import PipelineMigration.Text.Alphabet
set_option autoImplicit false

/- Texts in quotes. The display inside messages is in single quotes, or in double quotes when the
   text holds a single quote and no double quote; what cannot be shown is escaped by its code point
   in hexadecimal. A word of a POSIX shell is bare or in single quotes. -/
namespace PipelineMigration.Text

def hexDigits (width n : Nat) : Text :=
  let digits := Nat.toDigits 16 n
  List.replicate (width - digits.length) '0' ++ digits

def displayChar (mark c : Char) : Text :=
  if c == mark || c == '\\' then ['\\', c]
  else if c == '\n' then "\\n"
  else if c == '\r' then "\\r"
  else if c == '\t' then "\\t"
  else if isPrintable c then [c]
  else if c.toNat < 0x100 then "\\x" ++ hexDigits 2 c.toNat
  else if c.toNat < 0x10000 then "\\u" ++ hexDigits 4 c.toNat
  else "\\U" ++ hexDigits 8 c.toNat

def display (s : Text) : Text :=
  let mark := if s.contains '\'' && !s.contains '"' then '"' else '\''
  mark :: s.flatMap (displayChar mark) ++ [mark]

namespace Shell

def isSafe (c : Char) : Bool :=
  isIdentifierRest c || "@%+=:,./-".toList.contains c

/-- A word that the shell reads as the text: bare when every character is safe, else in single
    quotes, each single quote inside in double quotes of its own. -/
def quote (s : Text) : Text :=
  if s.isEmpty then "''"
  else if s.all isSafe then s
  else '\'' :: s.flatMap (fun c => if c == '\'' then "'\"'\"'".toList else [c]) ++ ['\'']

/-- A reference to a variable. -/
def expansion (name : Text) : Text := "$\x7b" ++ name ++ "\x7d"

end Shell
end PipelineMigration.Text
