import PipelineMigration.Text.AlphabetTable
import PipelineMigration.Text.Basic
set_option autoImplicit false

/- The character classes that scripts, names and numbers are read with. ASCII is decided by
   comparison and the rest of Unicode by table. -/
namespace PipelineMigration.Text

/-- How many entries of an ascending table, among the first `hi`, are at most `n`; the first
    `lo` are known to be. -/
def rank (table : Array Nat) (n : Nat) : Nat → Nat → Nat → Nat
  | 0, lo, _ => lo
  | fuel + 1, lo, hi =>
    if lo < hi then
      let mid := (lo + hi) / 2
      if table.getD mid 0 ≤ n then rank table n fuel (mid + 1) hi else rank table n fuel lo mid
    else lo

/-- Whether membership is switched on at `n`. -/
def switchedOn (table : Array Nat) (n : Nat) : Bool :=
  rank table n table.size 0 table.size % 2 == 1

def isAsciiLetter (c : Char) : Bool :=
  ('a' ≤ c && c ≤ 'z') || ('A' ≤ c && c ≤ 'Z')
def isAsciiDigit (c : Char) : Bool := '0' ≤ c && c ≤ '9'

/-- Letters, numerals and the underscore. -/
def isWord (c : Char) : Bool :=
  if c.toNat < 128 then isAsciiLetter c || isAsciiDigit c || c == '_'
  else switchedOn wordSwitches c.toNat

/-- Whitespace, the four separators U+001C to U+001F and the Unicode spaces. -/
def isBlank (c : Char) : Bool :=
  let n := c.toNat
  (9 ≤ n && n ≤ 13) || (28 ≤ n && n ≤ 32) || n == 0x85 || n == 0xa0 || n == 0x1680 ||
    (0x2000 ≤ n && n ≤ 0x200a) || n == 0x2028 || n == 0x2029 || n == 0x202f || n == 0x205f ||
    n == 0x3000

/-- The value of a decimal digit of any numbering. -/
def decimalValue? (c : Char) : Option Nat :=
  if c.toNat < 128 then if isAsciiDigit c then some (c.toNat - 48) else none
  else match rank decimalZeros c.toNat decimalZeros.size 0 decimalZeros.size with
    | 0 => none
    | k + 1 =>
      let value := c.toNat - decimalZeros.getD k 0
      if value < 10 then some value else none

def isDecimal (c : Char) : Bool := (decimalValue? c).isSome

/-- Decimal digits and the superscript, circled and similar ones. -/
def isDigit (c : Char) : Bool :=
  isDecimal c || (128 ≤ c.toNat && switchedOn markedDigitSwitches c.toNat)

theorem digit_of_ascii {c : Char} (digit : isAsciiDigit c = true) : isDigit c = true := by
  have low : c.toNat < 128 := by
    have bound := digit
    simp only [isAsciiDigit, Bool.and_eq_true, decide_eq_true_eq, Char.le_def, UInt32.le_iff_toNat_le] at bound
    exact Nat.lt_of_le_of_lt bound.2 (by decide)
  simp [isDigit, isDecimal, decimalValue?, low, digit]

/-- Characters that end a line, a carriage return before a line feed counting with it. -/
def isLineBreak (c : Char) : Bool :=
  let n := c.toNat
  (10 ≤ n && n ≤ 13) || (28 ≤ n && n ≤ 30) || n == 0x85 || n == 0x2028 || n == 0x2029

/-- Characters that a quoted display shows as themselves. -/
def isPrintable (c : Char) : Bool :=
  if c.toNat < 128 then 32 ≤ c.toNat && c.toNat < 127
  else switchedOn printableSwitches c.toNat

def isIdentifierStart (c : Char) : Bool := isAsciiLetter c || c == '_'
def isIdentifierRest (c : Char) : Bool := isAsciiLetter c || isAsciiDigit c || c == '_'

/-- An ASCII name: a letter or underscore, then letters, digits and underscores. -/
def isIdentifier : Text → Bool
  | [] => false
  | c :: r => isIdentifierStart c && r.all isIdentifierRest

def isQuote (c : Char) : Bool := c == '\'' || c == '"'

def trim (s : Text) : Text := trimBy isBlank s

/-- The maximal runs of characters that are not blank. -/
def words (s : Text) : List Text := (splitWhere isBlank s).filter fun w => !w.isEmpty

/-- Runs of blanks become one space, and none stands at either end. -/
def squeeze (s : Text) : Text := join " " (words s)

/- Lines of a text in two readings. `lines` cuts at every line break that Unicode knows;
   `lineAt` counts line feeds only. -/

/-- The lines without their breaks; a break at the end opens no further line. -/
def lines : Text → List Text
  | [] => []
  | '\r' :: '\n' :: r => [] :: lines r
  | c :: r =>
    if isLineBreak c then [] :: lines r
    else match lines r with
      | [] => [[c]]
      | l :: ls => (c :: l) :: ls

/-- The number of the line, from 1, that holds the character at `index`. -/
def lineAt (s : Text) (index : Nat) : Nat := (s.take index).count '\n' + 1

end PipelineMigration.Text
