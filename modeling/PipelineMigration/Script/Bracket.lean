import PipelineMigration.Keyed
import PipelineMigration.Pattern.Search
import PipelineMigration.Script.Literal
set_option autoImplicit false

/- Brackets are matched by counting brackets of one kind outside literals. What stands in them is
   a block, a keyword with an opening brace and all up to the closing brace, or the arguments of a
   call, `name: value` pairs whose value is a literal, a truth value or a number. -/
namespace PipelineMigration.Script

inductive BracketError where
  | pastEnd
  | notABracket (c : Char)
deriving DecidableEq

/-- The index of the closer that brings `depth` open brackets to none. -/
def closerIndex (opener closer : Char) (index depth : Nat) : List (Option Char) → Option Nat
  | [] => none
  | none :: r => closerIndex opener closer (index + 1) depth r
  | some c :: r =>
    if c == opener then closerIndex opener closer (index + 1) (depth + 1) r
    else if c == closer then
      if depth ≤ 1 then some index else closerIndex opener closer (index + 1) (depth - 1) r
    else closerIndex opener closer (index + 1) depth r

/-- How many characters stand between an opened bracket and its closer; `s` follows the opener. -/
def enclosedLength (opener closer : Char) (s : Text) : Option Nat :=
  closerIndex opener closer 0 1 (code s)

/-- What an opened bracket encloses; an unclosed one encloses the rest. -/
def enclosed (opener closer : Char) (s : Text) : Text :=
  match enclosedLength opener closer s with
  | some n => s.take n
  | none => s

def closerOf? (c : Char) : Option Char :=
  if c == '\x7b' then some '\x7d' else if c == '(' then some ')'
  else if c == '[' then some ']' else none

/-- The index of the bracket that closes the one at `index`; nothing when it stays open. -/
def matchBracket (s : Text) (index : Nat) : Except BracketError (Option Nat) :=
  match s.drop index with
  | [] => .error .pastEnd
  | opener :: r => match closerOf? opener with
    | none => .error (.notABracket opener)
    | some closer => .ok ((enclosedLength opener closer r).map (index + 1 + ·))

/-- Open braces less closed braces outside literals. -/
def braceDepth (s : List (Option Char)) : Int :=
  (s.count (some '\x7b') : Int) - s.count (some '\x7d')

structure Block where
  /-- Where the body begins. -/
  offset : Nat
  body : Text
deriving DecidableEq

def isWordOrDot (c : Char) : Bool := Text.isWord c || c == '.'

/-- A keyword that is no part of a longer word or path, and an opening brace. -/
def blockStart (keyword : Text) : Pattern :=
  Pattern.notAfter isWordOrDot ++ .exactly keyword ++ .blanks ++ "\x7b"

def blocks (keyword : Text) (s : Text) : List Block :=
  ((blockStart keyword).allMatches s).map fun m =>
    ⟨m.stop, enclosed '\x7b' '\x7d' m.after.ahead⟩

/-- The arguments of a call whose opening parenthesis was just passed. -/
def callArguments (m : Match) : Text := enclosed '(' ')' m.after.ahead

def argumentName : Pattern := .capture 1 (.longest 1 Text.isWord) ++ .blanks ++ ":" ++ .blanks

def literalArgument : Pattern :=
  argumentName ++ .anyOf [
    "'''" ++ .capture 2 (.shortest 0 fun _ => true) ++ "'''",
    "\"\"\"" ++ .capture 2 (.shortest 0 fun _ => true) ++ "\"\"\"",
    "'" ++ .capture 2 (.longest 0 (· != '\'')) ++ "'",
    "\"" ++ .capture 2 (.longest 0 (· != '"')) ++ "\""]

def bareArgument : Pattern :=
  argumentName ++
    .capture 2 (.anyOf ["true", "false", .optional "-" ++ .longest 1 Text.isDecimal]) ++ .edge

/-- The named arguments, literals before bare values, each name with its first value. -/
def namedArguments (arguments : Text) : List (Text × Text) :=
  Keyed.firstOfPairs <|
    (literalArgument.allMatches arguments ++ bareArgument.allMatches arguments).map
      fun m => (m.captured 1, m.captured 2)

def quotedText : Pattern := .anyOf [
  "'" ++ .capture 1 (.longest 0 (· != '\'')) ++ "'",
  "\"" ++ .capture 1 (.longest 0 (· != '"')) ++ "\""]

/-- What stands in quotes, from the left. -/
def quotedValues (s : Text) : List Text := (quotedText.allMatches s).map (·.captured 1)

end PipelineMigration.Script
