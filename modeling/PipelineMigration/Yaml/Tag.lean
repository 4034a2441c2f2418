import PipelineMigration.Keyed
import PipelineMigration.Pattern.Search
set_option autoImplicit false

/- Tags of nodes: the ones that the language defines, by name or by the look of a plain scalar. -/
namespace PipelineMigration.Yaml

inductive Tag where
  | null | bool | int | float | binary | time | text | list | mapping | orderedMap | pairs | set
  | merge | default
  | unknown (uri : Text)
deriving DecidableEq

namespace Tag

def uriStart : Text := "tag:yaml.org,2002:"

def named : List (Text × Tag) :=
  [("null", null), ("bool", bool), ("int", int), ("float", float), ("binary", binary),
    ("timestamp", time), ("str", text), ("seq", list), ("map", mapping), ("omap", orderedMap),
    ("pairs", pairs), ("set", set), ("merge", merge), ("value", default)]

def ofUri (uri : Text) : Tag :=
  let name := uri.drop uriStart.length
  if uriStart.isPrefixOf uri then (Keyed.get? name named).getD (unknown uri) else unknown uri

def truthWords : List (Text × Bool) :=
  [("yes", true), ("no", false), ("true", true), ("false", false), ("on", true), ("off", false)]

/-- A word in small letters, in capitals, or with a capital first. -/
def spellings (word : Text) : List Text :=
  let upper := word.map Char.toUpper
  [word, upper, upper.take 1 ++ word.drop 1]

def boolWords : List Text := truthWords.flatMap fun (word, _) => spellings word
def nullWords : List Text := [] :: ['~'] :: spellings "null"

open Pattern

def digit : Pattern := one Text.isAsciiDigit
def digits : Pattern := longest 1 Text.isAsciiDigit
def isDigitOrLow (c : Char) : Bool := Text.isAsciiDigit c || c == '_'
def lowDigits : Pattern := one Text.isAsciiDigit ++ longest 0 isDigitOrLow
def signMark : Pattern := one fun c => c == '+' || c == '-'
def sign : Pattern := optional signMark
def positive : Pattern := one (fun c => '1' ≤ c && c ≤ '9') ++ longest 0 isDigitOrLow
def isHexOrLow (c : Char) : Bool :=
  isDigitOrLow c || ('a' ≤ c && c ≤ 'f') || ('A' ≤ c && c ≤ 'F')

/-- Colons with numbers below sixty. -/
def sixties : Pattern :=
  several (":" ++ optional (one fun c => '0' ≤ c && c ≤ '5') ++ digit)

def intForm : Pattern :=
  sign ++ anyOf
    ["0b" ++ longest 1 (fun c => c == '0' || c == '1' || c == '_'),
      "0" ++ longest 1 (fun c => ('0' ≤ c && c ≤ '7') || c == '_'),
      "0",
      positive ++ optional sixties,
      "0x" ++ longest 1 isHexOrLow] ++ veryEnd

def exponent : Pattern := optional (one (fun c => c == 'e' || c == 'E') ++ signMark ++ digits)

def floatForm : Pattern :=
  anyOf
    [sign ++ lowDigits ++ "." ++ longest 0 isDigitOrLow ++ exponent,
      "." ++ lowDigits ++ exponent,
      sign ++ lowDigits ++ sixties ++ "." ++ longest 0 isDigitOrLow,
      sign ++ "." ++ anyOf ["inf", "Inf", "INF"],
      "." ++ anyOf ["nan", "NaN", "NAN"]] ++ veryEnd

def fourDigits : Pattern := digit ++ digit ++ digit ++ digit
def twoDigits : Pattern := digit ++ digit
def oneOrTwo : Pattern := digit ++ optional digit
def tabsOrSpaces (least : Nat) : Pattern := longest least fun c => c == ' ' || c == '\t'

def zone : Pattern :=
  tabsOrSpaces 0 ++ orElse "Z" (signMark ++ oneOrTwo ++ optional (":" ++ twoDigits))

def clock : Pattern :=
  orElse (one fun c => c == 'T' || c == 't') (tabsOrSpaces 1) ++ oneOrTwo ++ ":" ++ twoDigits ++
    ":" ++ twoDigits ++ optional ("." ++ longest 0 Text.isAsciiDigit) ++ optional zone

def timeForm : Pattern :=
  orElse (fourDigits ++ "-" ++ twoDigits ++ "-" ++ twoDigits ++ veryEnd)
    (fourDigits ++ "-" ++ oneOrTwo ++ "-" ++ oneOrTwo ++ clock ++ veryEnd)

/-- The tag of a plain scalar, by its look. -/
def ofPlain (s : Text) : Tag :=
  if boolWords.contains s then bool
  else if (floatForm.matchStart s).isSome then float
  else if (intForm.matchStart s).isSome then int
  else if s = "<<" then merge
  else if nullWords.contains s then null
  else if (timeForm.matchStart s).isSome then time
  else if s = "=" then default
  else text

end Tag
end PipelineMigration.Yaml
