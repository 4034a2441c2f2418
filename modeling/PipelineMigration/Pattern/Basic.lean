import PipelineMigration.Text.Alphabet
set_option autoImplicit false

/- Text patterns. A pattern is tried at a place of a text; its alternatives are ordered, and
   the first way to match that lets the rest of the pattern match is the one taken. -/
namespace PipelineMigration

/-- A place between two characters of a text. -/
structure Place where
  before : Option Char
  ahead : Text
  index : Nat

namespace Place

def start (s : Text) : Place := ⟨none, s, 0⟩

/-- The place `n` characters on. -/
def advance (here : Place) : Nat → Place
  | 0 => here
  | n + 1 => match here.ahead with
    | [] => here
    | c :: r => advance ⟨some c, r, here.index + 1⟩ n

/-- The places reached over characters that satisfy `p`, nearest first. -/
def reach (p : Char → Bool) (before : Option Char) (index : Nat) : Text → List Place
  | [] => [⟨before, [], index⟩]
  | c :: r => ⟨before, c :: r, index⟩ :: if p c then reach p (some c) (index + 1) r else []

end Place

/-- A stretch of a text, from a place to the index where it stops. -/
structure Span where
  start : Place
  stop : Nat

def Span.text (s : Span) : Text := s.start.ahead.take (s.stop - s.start.index)

abbrev Captures := List (Nat × Span)

inductive Pattern where
  | empty
  | one (p : Char → Bool)
  | exactly (s : Text)
  | andThen (a b : Pattern)
  | orElse (a b : Pattern)
  /-- A run of at least `least` characters, longer runs first. -/
  | longest (least : Nat) (p : Char → Bool)
  /-- A run of at least `least` characters, shorter runs first. -/
  | shortest (least : Nat) (p : Char → Bool)
  /-- One or more times, more times first. -/
  | several (a : Pattern)
  | capture (slot : Nat) (a : Pattern)
  /-- Consumes nothing and looks at the character before and the text ahead. -/
  | around (test : Option Char → Text → Bool)

namespace Pattern

instance : Append Pattern := ⟨andThen⟩
instance : Coe String Pattern := ⟨fun s => exactly s.toList⟩

def anyOf : List Pattern → Pattern
  | [] => around fun _ _ => false
  | [a] => a
  | a :: rest => orElse a (anyOf rest)

def optional (a : Pattern) : Pattern := orElse a empty
def blanks : Pattern := longest 0 Text.isBlank
def quoteMark : Pattern := one Text.isQuote

/-- A run of at least one character without a quote mark, captured. -/
def unquoted (slot : Nat) : Pattern := capture slot (longest 1 fun c => !Text.isQuote c)

/-- A place where a word begins or ends. -/
def edge : Pattern := around fun before ahead => before.any Text.isWord != ahead.head?.any Text.isWord

def notAfter (p : Char → Bool) : Pattern := around fun before _ => !before.any p
def aheadIs (p : Char → Bool) : Pattern := around fun _ ahead => ahead.head?.any p
def aheadIsNot (p : Char → Bool) : Pattern := around fun _ ahead => !ahead.head?.any p

def lineStart : Pattern := around fun before _ => before.all (· == '\n')
def lineEnd : Pattern := around fun _ ahead => ahead.head?.all (· == '\n')
def textStart : Pattern := around fun before _ => before.isNone

/-- The end of the text, or before a line feed that ends it. -/
def textEnd : Pattern := around fun _ ahead => ahead.isEmpty || ahead == ['\n']

/-- The whole text and no line feed more. -/
def veryEnd : Pattern := around fun _ ahead => ahead.isEmpty

end Pattern
end PipelineMigration
