import PipelineMigration.Yaml.Token.Block
import PipelineMigration.Yaml.Token.Name
import PipelineMigration.Yaml.Token.Plain
set_option autoImplicit false

/- From text to tokens. Indentation opens and closes block collections, and a token that turns out
   to begin a key gets its key mark afterwards, when the colon is met. -/
namespace PipelineMigration.Yaml

/-- A token that a colon on the same line would make a key. -/
structure PossibleKey where
  /-- How many brackets are open around it. -/
  depth : Nat
  /-- How many tokens come before it. -/
  place : Nat
  index : Nat
  line : Nat
  column : Nat
  /-- Whether the text is malformed unless it becomes a key. -/
  required : Bool

structure Scan where
  cursor : Cursor
  /-- More than the characters that are left. -/
  budget : Nat
  depth : Nat := 0
  indent : Int := -1
  outerIndents : List Int := []
  allowKey : Bool := true
  /-- Innermost first, at most one for each depth. -/
  possibleKeys : List PossibleKey := []
  /-- Latest first. -/
  tokens : List Token := []
  count : Nat := 0

namespace Scan

abbrev Step := Except Fault Scan

def inBrackets (s : Scan) : Bool := 0 < s.depth

def emit (t : Token) (s : Scan) : Scan := { s with tokens := t :: s.tokens, count := s.count + 1 }

/-- Puts a token before all but the first `place` tokens. -/
def emitAt (place : Nat) (t : Token) (s : Scan) : Scan :=
  let after := s.count - place
  { s with tokens := s.tokens.take after ++ t :: s.tokens.drop after, count := s.count + 1 }

def goTo (c : Cursor) (s : Scan) : Scan := { s with cursor := c }

/-- Emits a token of so many characters. -/
def emitMark (t : Token) (length : Nat) (s : Scan) : Scan :=
  (s.goTo (s.cursor.advance length)).emit t

def forbidKey (s : Scan) : Scan := { s with allowKey := false }
def permitKey (s : Scan) : Scan := { s with allowKey := true }

/-- A possible key must not reach into another line or over more than 1024 characters. -/
def isStale (c : Cursor) (k : PossibleKey) : Bool :=
  k.line != c.line || 1024 < c.index - k.index

def dropStaleKeys (s : Scan) : Step :=
  if s.possibleKeys.any fun k => isStale s.cursor k && k.required then .error .malformed
  else .ok { s with possibleKeys := s.possibleKeys.filter fun k => !isStale s.cursor k }

/-- Gives up the possible key at the present depth. -/
def dropKey (s : Scan) : Step :=
  if s.possibleKeys.any fun k => k.depth == s.depth && k.required then .error .malformed
  else .ok { s with possibleKeys := s.possibleKeys.filter fun k => k.depth != s.depth }

/-- Notes that the next token may begin a key. -/
def noteKey (s : Scan) : Step :=
  if !s.allowKey then .ok s
  else do
    let s ← s.dropKey
    let c := s.cursor
    pure { s with possibleKeys :=
      ⟨s.depth, s.count, c.index, c.line, c.column,
        !s.inBrackets && s.indent == (c.column : Int)⟩ :: s.possibleKeys }

/-- Closes the block collections that are indented deeper than a column. -/
def closeTo (column : Int) : Nat → Scan → Scan
  | 0, s => s
  | fuel + 1, s =>
    if !s.inBrackets && column < s.indent then
      closeTo column fuel
        ({ s with indent := s.outerIndents.head?.getD (-1)
                  outerIndents := s.outerIndents.drop 1 }.emit .blockEnd)
    else s

def close (column : Int) (s : Scan) : Scan := s.closeTo column (s.outerIndents.length + 1)

/-- Enters a column when it is deeper than the present indentation. -/
def openAt (column : Nat) (mark : Scan → Scan) (s : Scan) : Scan :=
  if s.indent < (column : Int) then
    mark { s with indent := column, outerIndents := s.indent :: s.outerIndents }
  else s

def skipToToken : Nat → Scan → Scan
  | 0, s => s
  | fuel + 1, s =>
    let c := s.cursor.skipRemark
    match c.lineBreak? with
    | none => s.goTo c
    | some (_, c) =>
      skipToToken fuel { s with cursor := c, allowKey := s.allowKey || !s.inBrackets }

def documentMark (t : Token) (s : Scan) : Step := do
  let s ← (s.close (-1)).dropKey
  pure (s.forbidKey.emitMark t 3)

def openFlow (t : Token) (s : Scan) : Step := do
  let s ← s.noteKey
  pure ({ s with depth := s.depth + 1 }.permitKey.emitMark t 1)

def closeFlow (t : Token) (s : Scan) : Step := do
  let s ← s.dropKey
  if s.depth = 0 then .error .malformed
  else pure ({ s with depth := s.depth - 1 }.forbidKey.emitMark t 1)

def flowComma (s : Scan) : Step := do
  let s ← s.permitKey.dropKey
  pure (s.emitMark .flowEntry 1)

/-- An entry or an explicit key of a block collection, which `start` opens where it is the first. -/
def blockMark (start : Token) (s : Scan) : Step :=
  if s.inBrackets then .ok s
  else if !s.allowKey then .error .malformed
  else .ok (s.openAt s.cursor.column (emit start))

def entryMark (s : Scan) : Step := do
  let s ← s.blockMark .blockSequenceStart
  let s ← s.permitKey.dropKey
  pure (s.emitMark .blockEntry 1)

def keyMark (s : Scan) : Step := do
  let s ← s.blockMark .blockMappingStart
  let s ← { s with allowKey := !s.inBrackets }.dropKey
  pure (s.emitMark .key 1)

/-- Makes a possible key a key. -/
def confirmKey (k : PossibleKey) (s : Scan) : Scan :=
  let s := { s with possibleKeys := s.possibleKeys.filter fun k => k.depth != s.depth }
  let s := s.emitAt k.place .key
  if s.inBrackets then s else s.openAt k.column (emitAt k.place .blockMappingStart)

def valueMark (s : Scan) : Step :=
  match s.possibleKeys.find? fun k => k.depth == s.depth with
  | some k => .ok ((s.confirmKey k).forbidKey.emitMark .value 1)
  | none => do
    let s ← s.blockMark .blockMappingStart
    let s ← { s with allowKey := !s.inBrackets }.dropKey
    pure (s.emitMark .value 1)

/-- A token that may begin a key, read from the present place. -/
def word (read : Nat → Cursor → Except Fault (Token × Cursor)) (s : Scan) : Step := do
  let s ← s.noteKey
  let (t, c) ← read s.budget s.cursor
  pure ((s.forbidKey.goTo c).emit t)

def aliasWord (_ : Nat) (c : Cursor) : Except Fault (Token × Cursor) :=
  (anchorName c.step).map fun (name, c) => (.alias name, c)

def anchorWord (_ : Nat) (c : Cursor) : Except Fault (Token × Cursor) :=
  (anchorName c.step).map fun (name, c) => (.anchor name, c)

def singleWord (budget : Nat) (c : Cursor) : Except Fault (Token × Cursor) :=
  (singleQuoted budget c.step).map fun (t, c) => (.scalar t false, c)

def doubleWord (budget : Nat) (c : Cursor) : Except Fault (Token × Cursor) :=
  (doubleQuoted budget c.step).map fun (t, c) => (.scalar t false, c)

def plainWord (s : Scan) : Step := do
  let s ← s.noteKey
  let (t, c, fresh) :=
    plain s.inBrackets (s.indent + 1) s.budget false [] s.cursor
  pure ({ s with cursor := c, allowKey := fresh }.emit (.scalar t true))

def blockWord (folded : Bool) (s : Scan) : Step := do
  let s ← s.permitKey.dropKey
  let (t, c) ← blockScalar s.budget folded s.indent s.cursor.step
  pure ((s.goTo c).emit (.scalar t false))

def directiveLine (s : Scan) : Step := do
  let s ← (s.close (-1)).dropKey
  let (d, c) ← Yaml.directive s.cursor.step
  pure ((s.forbidKey.goTo c).emit (.directive d))

/-- Characters that cannot begin a plain scalar. -/
def indicators : Text := "-?:,[]\x7b\x7d#&*!|>'\"%@\x60"

/-- Whether a plain scalar begins with `c` before `r`. -/
def beginsPlain (brackets : Bool) (c : Char) (r : Text) : Bool :=
  !(isGap c || indicators.contains c) ||
    (!endsWord r && (c == '-' || (!brackets && (c == '?' || c == ':'))))

/-- The token that begins with `c` before `r`. -/
def token (c : Char) (r : Text) (s : Scan) : Step :=
  let lineStart := s.cursor.column == 0
  let standsAlone := s.inBrackets || endsWord r
  if c == '%' && lineStart then s.directiveLine
  else if c == '-' && lineStart && beginsMark (c :: r) then s.documentMark .documentStart
  else if c == '.' && lineStart && beginsMark (c :: r) then s.documentMark .documentEnd
  else if c == '[' then s.openFlow .flowSequenceStart
  else if c == '\x7b' then s.openFlow .flowMappingStart
  else if c == ']' then s.closeFlow .flowSequenceEnd
  else if c == '\x7d' then s.closeFlow .flowMappingEnd
  else if c == ',' then s.flowComma
  else if c == '-' && endsWord r then s.entryMark
  else if c == '?' && standsAlone then s.keyMark
  else if c == ':' && standsAlone then s.valueMark
  else if c == '*' then s.word aliasWord
  else if c == '&' then s.word anchorWord
  else if c == '!' then s.word (fun _ => tagToken)
  else if c == '|' && !s.inBrackets then s.blockWord false
  else if c == '>' && !s.inBrackets then s.blockWord true
  else if c == '\'' then s.word singleWord
  else if c == '"' then s.word doubleWord
  else if beginsPlain s.inBrackets c r then s.plainWord
  else .error .malformed

/-- The tokens from here on; what cannot be read ends them. -/
def run : Nat → Scan → List Token
  | 0, s => (Token.broken .malformed :: s.tokens).reverse
  | fuel + 1, s =>
    match (skipToToken s.budget s).dropStaleKeys with
    | .error f => (Token.broken f :: s.tokens).reverse
    | .ok s =>
      let s := s.close s.cursor.column
      match s.cursor.rest with
      | [] => match (s.close (-1)).dropKey with
        | .error f => (Token.broken f :: s.tokens).reverse
        | .ok s => (Token.streamEnd :: s.tokens).reverse
      | c :: r => match s.token c r with
        | .error f => (Token.broken f :: s.tokens).reverse
        | .ok s => run fuel s

end Scan

/-- The tokens of a text; a byte order mark before it does not count. -/
def tokens (text : Text) : List Token :=
  let c : Cursor := { rest := text }
  let c := if text.head? == some '\ufeff' then c.step else c
  Scan.run (text.length + 2) { cursor := c, budget := text.length + 2 }

end PipelineMigration.Yaml
