import PipelineMigration.Text.Basic
set_option autoImplicit false

/- A place in YAML text with its line and column, and the characters that part its lines. -/
namespace PipelineMigration.Yaml

/-- Characters that end a line. -/
def isBreak (c : Char) : Bool :=
  c == '\n' || c == '\r' || c == '\u0085' || c == '\u2028' || c == '\u2029'

def isTabOrSpace (c : Char) : Bool := c == ' ' || c == '\t'
def isGap (c : Char) : Bool := isTabOrSpace c || isBreak c

/-- Whether a text ends here or goes on with a gap. -/
def endsWord (s : Text) : Bool := s.head?.all isGap

/-- Whether a text ends here or goes on with a space or a line break. -/
def endsField (s : Text) : Bool := s.head?.all fun c => c == ' ' || isBreak c

/-- Whether a line ends here. -/
def endsLine (s : Text) : Bool := s.head?.all isBreak

/-- Whether a text begins with a mark between documents. -/
def beginsMark (s : Text) : Bool :=
  (Text.startsWith s "---" || Text.startsWith s "...") && endsWord (s.drop 3)

/-- Characters that a document may hold. -/
def isAllowed (c : Char) : Bool :=
  let n := c.toNat
  n == 9 || n == 10 || n == 13 || (0x20 ≤ n && n ≤ 0x7e) || n == 0x85 ||
    (0xa0 ≤ n && n ≤ 0xd7ff) || (0xe000 ≤ n && n ≤ 0xfffd) || 0x10000 ≤ n

structure Cursor where
  rest : Text
  index : Nat := 0
  line : Nat := 0
  column : Nat := 0

namespace Cursor

/-- Goes one character on. -/
def step (c : Cursor) : Cursor :=
  match c.rest with
  | [] => c
  | x :: r =>
    if isBreak x && !(x == '\r' && r.head? == some '\n') then ⟨r, c.index + 1, c.line + 1, 0⟩
    else ⟨r, c.index + 1, c.line, if x == '\ufeff' then c.column else c.column + 1⟩

def advance : Nat → Cursor → Cursor
  | 0, c => c
  | n + 1, c => advance n c.step

/-- The run of characters in a class, and the place after it. -/
def span (p : Char → Bool) (c : Cursor) : Text × Cursor :=
  let run := c.rest.takeWhile p
  (run, c.advance run.length)

def skip (p : Char → Bool) (c : Cursor) : Cursor := (c.span p).2
def head? (c : Cursor) : Option Char := c.rest.head?
def looksAt (p : Char → Bool) (c : Cursor) : Bool := c.rest.head?.any p

/-- Passes a line break, which is a line feed unless it is one of the two separators. -/
def lineBreak? (c : Cursor) : Option (Char × Cursor) :=
  match c.rest with
  | '\r' :: '\n' :: _ => some ('\n', c.advance 2)
  | x :: _ =>
    if x == '\u2028' || x == '\u2029' then some (x, c.step)
    else if isBreak x then some ('\n', c.step)
    else none
  | [] => none

/-- Passes a line break where there is one. -/
def passBreak (c : Cursor) : Cursor := (c.lineBreak?.map (·.2)).getD c

/-- Passes spaces and a comment. -/
def skipRemark (c : Cursor) : Cursor :=
  let c := c.skip (· == ' ')
  if c.looksAt (· == '#') then c.skip fun x => !isBreak x else c

end Cursor
end PipelineMigration.Yaml
