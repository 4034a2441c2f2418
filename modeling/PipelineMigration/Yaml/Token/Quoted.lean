import PipelineMigration.Yaml.Token
import PipelineMigration.Json.Reader
set_option autoImplicit false

/- Quoted scalars. A line break inside becomes a space, blank lines become line feeds, and blanks
   around a break are dropped; double quotes know escapes. -/
namespace PipelineMigration.Yaml

/-- The blank lines after a line break, as line breaks, and the indentation of the next line. -/
def quotedBreaks : Nat → Cursor → Except Fault (Text × Cursor)
  | 0, _ => .error .malformed
  | fuel + 1, c =>
    if beginsMark c.rest then .error .malformed
    else
      let c := c.skip isTabOrSpace
      match c.lineBreak? with
      | none => .ok ([], c)
      | some (b, c) => do
        let (more, c) ← quotedBreaks fuel c
        pure (b :: more, c)

/-- What a line break and the breaks after it stand for. -/
def foldBreak (b : Char) (breaks : Text) : Text :=
  (if b == '\n' then if breaks.isEmpty then [' '] else [] else [b]) ++ breaks

/-- Blanks inside quotes, with the line breaks among them folded. -/
def quotedBlanks (c : Cursor) : Except Fault (Text × Cursor) :=
  let (blanks, c) := c.span isTabOrSpace
  if c.rest.isEmpty then .error .malformed
  else match c.lineBreak? with
    | none => .ok (blanks, c)
    | some (b, c) => do
      let (breaks, c) ← quotedBreaks (c.rest.length + 1) c
      pure (foldBreak b breaks, c)

/-- Escapes of one character. -/
def shortEscapes : List (Char × Char) :=
  [('0', '\x00'), ('a', '\x07'), ('b', '\x08'), ('t', '\t'), ('\t', '\t'), ('n', '\n'),
    ('v', '\x0b'), ('f', '\x0c'), ('r', '\r'), ('e', '\x1b'), (' ', ' '), ('"', '"'),
    ('\\', '\\'), ('/', '/'), ('N', '\u0085'), ('_', '\u00a0'), ('L', '\u2028'), ('P', '\u2029')]

/-- How many hexadecimal digits follow an escape by code. -/
def codeWidth? (c : Char) : Option Nat :=
  if c == 'x' then some 2 else if c == 'u' then some 4 else if c == 'U' then some 8 else none

def hexNumber? (digits : Text) : Option Nat :=
  digits.foldl (fun n? c => n?.bind fun n => (Json.hexValue? c).map (16 * n + ·)) (some 0)

/-- The character of a code; half a pair of units is the replacement character. -/
def ofCode (n : Nat) : Except Fault Char :=
  if 0x7fffffff < n then .error .beyondWord
  else if 0x10ffff < n then .error .beyondUnicode
  else if 0xd800 ≤ n && n < 0xe000 then .ok '\ufffd'
  else .ok (Char.ofNat n)

/-- What an escape stands for; the cursor is after the backslash. -/
def escape (c : Cursor) : Except Fault (Text × Cursor) :=
  match c.rest with
  | [] => .error .malformed
  | e :: r =>
    match Keyed.get? e shortEscapes, codeWidth? e with
    | some x, _ => .ok ([x], c.step)
    | none, some width =>
      if r.length < width then .error .malformed
      else match hexNumber? (r.take width) with
        | none => .error .malformed
        | some n => (ofCode n).map fun x => ([x], c.advance (width + 1))
    | none, none => match c.lineBreak? with
      | some (_, c) => quotedBreaks (c.rest.length + 1) c
      | none => .error .malformed

/-- The rest of a double-quoted scalar. -/
def doubleQuoted : Nat → Cursor → Except Fault (Text × Cursor)
  | 0, _ => .error .malformed
  | fuel + 1, c => match c.rest with
    | [] => .error .malformed
    | x :: _ =>
      if x == '"' then .ok ([], c.step)
      else do
        let (part, c) ← if x == '\\' then escape c.step
          else if isGap x then quotedBlanks c
          else .ok ([x], c.step)
        let (more, c) ← doubleQuoted fuel c
        pure (part ++ more, c)

/-- The rest of a single-quoted scalar, in which two quotes stand for one. -/
def singleQuoted : Nat → Cursor → Except Fault (Text × Cursor)
  | 0, _ => .error .malformed
  | fuel + 1, c => match c.rest with
    | [] => .error .malformed
    | x :: r =>
      if x == '\'' && r.head? != some '\'' then .ok ([], c.step)
      else do
        let (part, c) ← if x == '\'' then .ok ([x], c.advance 2)
          else if isGap x then quotedBlanks c
          else .ok ([x], c.step)
        let (more, c) ← singleQuoted fuel c
        pure (part ++ more, c)

end PipelineMigration.Yaml
