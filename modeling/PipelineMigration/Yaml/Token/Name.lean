import PipelineMigration.Yaml.Token
import PipelineMigration.Json.Reader
set_option autoImplicit false

/- Anchors, aliases, tags and directives. -/
namespace PipelineMigration.Yaml

def isNameChar (c : Char) : Bool := Text.isIdentifierRest c || c == '-'

def isUriChar (c : Char) : Bool :=
  Text.isAsciiLetter c || Text.isAsciiDigit c || "-;/?:@&=+$,_.!~*'()[]".toList.contains c

/-- The name of an anchor or alias after its mark. -/
def anchorName (c : Cursor) : Except Fault (Text × Cursor) :=
  let (name, c) := c.span isNameChar
  if name.isEmpty || !(c.rest.head?.all fun x => isGap x || "?:,]\x7d%@\x60".toList.contains x)
  then .error .malformed
  else .ok (name, c)

/-- A byte in hexadecimal after a percent sign. -/
def percentByte? (s : Text) : Option Nat :=
  match s with
  | '%' :: a :: b :: _ => do
    let a ← Json.hexValue? a
    let b ← Json.hexValue? b
    some (16 * a + b)
  | _ => none

/-- A run of bytes after percent signs; nothing when a sign lacks its byte. -/
def percentBytes : Nat → Cursor → Option (List Nat × Cursor)
  | 0, _ => none
  | fuel + 1, c =>
    if c.looksAt (· == '%') then do
      let b ← percentByte? c.rest
      let (more, c) ← percentBytes fuel (c.advance 3)
      some (b :: more, c)
    else some ([], c)

/-- A text from its bytes; nothing when they are no characters. -/
def ofBytes? (bytes : List Nat) : Option Text :=
  (String.fromUTF8? ⟨(bytes.map UInt8.ofNat).toArray⟩).map String.toList

/-- The characters of a tag's name, bytes in hexadecimal decoded. -/
def uriChars : Nat → Cursor → Except Fault (Text × Cursor)
  | 0, _ => .error .malformed
  | fuel + 1, c =>
    let (run, c) := c.span isUriChar
    if c.looksAt (· == '%') then
      match percentBytes (c.rest.length + 1) c with
      | none => .error .malformed
      | some (bytes, c) => match ofBytes? bytes with
        | none => .error .malformed
        | some part => do
          let (more, c) ← uriChars fuel c
          pure (run ++ part ++ more, c)
    else .ok (run, c)

/-- A tag's name, which has at least one character. -/
def tagUri (c : Cursor) : Except Fault (Text × Cursor) :=
  if c.looksAt fun x => isUriChar x || x == '%' then uriChars (c.rest.length + 1) c
  else .error .malformed

/-- A handle: an exclamation mark, or a name between two. -/
def tagHandle (c : Cursor) : Except Fault (Text × Cursor) :=
  match c.rest with
  | '!' :: ' ' :: _ => .ok (['!'], c.step)
  | '!' :: r =>
    let name := r.takeWhile isNameChar
    if r[name.length]? == some '!' then .ok ('!' :: name ++ ['!'], c.advance (name.length + 2))
    else .error .malformed
  | _ => .error .malformed

/-- Whether a second exclamation mark comes before the tag's end. -/
def hasHandle (r : Text) : Bool := (r.takeWhile fun x => x != ' ' && !isBreak x).contains '!'

def tagToken (c : Cursor) : Except Fault (Token × Cursor) := do
  let (token, c) ← match c.rest.drop 1 with
    | '<' :: _ => do
      let (uri, c) ← tagUri (c.advance 2)
      if c.looksAt (· == '>') then pure (Token.tag none uri, c.step) else .error .malformed
    | r =>
      if endsWord r then pure (Token.tag none ['!'], c.step)
      else do
        let (handle, c) ← if hasHandle r then tagHandle c else pure (['!'], c.step)
        let (uri, c) ← tagUri c
        pure (Token.tag (some handle) uri, c)
  if endsField c.rest then pure (token, c) else .error .malformed

def skipSpaces (c : Cursor) : Cursor := c.skip (· == ' ')

def directiveNumber (c : Cursor) : Except Fault (Nat × Cursor) :=
  let (ds, c) := c.span Text.isAsciiDigit
  if ds.isEmpty then .error .malformed
  else match Number.readInteger ds with
    | .ok n => .ok (n.toNat, c)
    | .error e => .error (.integer e)

def versionDirective (c : Cursor) : Except Fault (Directive × Cursor) := do
  let (major, c) ← directiveNumber (skipSpaces c)
  if !c.looksAt (· == '.') then .error .malformed
  else do
    let (_, c) ← directiveNumber c.step
    if endsField c.rest then pure (.version major, c) else .error .malformed

def handleDirective (c : Cursor) : Except Fault (Directive × Cursor) := do
  let (handle, c) ← tagHandle (skipSpaces c)
  if !c.looksAt (· == ' ') then .error .malformed
  else do
    let (uri, c) ← tagUri (skipSpaces c)
    if endsField c.rest then pure (.tagHandle handle uri, c) else .error .malformed

/-- A directive after its percent sign, to the end of the line. -/
def directive (c : Cursor) : Except Fault (Directive × Cursor) := do
  let (name, c) := c.span isNameChar
  if name.isEmpty || !endsField c.rest then .error .malformed
  else do
    let (d, c) ← if name = "YAML" then versionDirective c
      else if name = "TAG" then handleDirective c
      else pure (Directive.other, c.skip fun x => !isBreak x)
    let c := c.skipRemark
    if endsLine c.rest then pure (d, c.passBreak) else .error .malformed

end PipelineMigration.Yaml
