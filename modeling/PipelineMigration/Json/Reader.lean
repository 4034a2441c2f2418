import PipelineMigration.Json.Basic
import PipelineMigration.Number.Reading
set_option autoImplicit false

/- Reading JSON text. Besides the standard's values the words `NaN`, `Infinity` and `-Infinity`
   are numbers; of a repeated name the last value counts. An error tells its cause and where. -/
namespace PipelineMigration

inductive JsonFault where
  | byteOrderMark | expectingValue | extraData | expectingName | expectingColon | expectingComma
  | unterminatedText | controlCharacter | invalidEscape | invalidCodeEscape
  /-- A whole number with too many digits. -/
  | integer (error : Number.IntegerError)
deriving DecidableEq

def JsonFault.message : JsonFault → Text
  | byteOrderMark => "Unexpected UTF-8 BOM (decode using utf-8-sig)"
  | expectingValue => "Expecting value"
  | extraData => "Extra data"
  | expectingName => "Expecting property name enclosed in double quotes"
  | expectingColon => "Expecting ':' delimiter"
  | expectingComma => "Expecting ',' delimiter"
  | unterminatedText => "Unterminated string starting at"
  | controlCharacter => "Invalid control character at"
  | invalidEscape => "Invalid \\escape"
  | invalidCodeEscape => "Invalid \\uXXXX escape"
  | integer error => error.message

structure JsonError where
  fault : JsonFault
  position : Nat
deriving DecidableEq

namespace Json

/-- A fault and the text that was left where it lies. -/
abbrev Fault := JsonFault × Text

def isSpace (c : Char) : Bool := c == ' ' || c == '\t' || c == '\n' || c == '\r'
def skipSpace (s : Text) : Text := s.dropWhile isSpace

def hexValue? (c : Char) : Option Nat :=
  if '0' ≤ c && c ≤ '9' then some (c.toNat - 48)
  else if 'a' ≤ c && c ≤ 'f' then some (c.toNat - 87)
  else if 'A' ≤ c && c ≤ 'F' then some (c.toNat - 55)
  else none

/-- Four hexadecimal digits that something follows. -/
def codeUnit? : Text → Option (Nat × Text)
  | a :: b :: c :: d :: e :: r => do
    let a ← hexValue? a
    let b ← hexValue? b
    let c ← hexValue? c
    let d ← hexValue? d
    some (((a * 16 + b) * 16 + c) * 16 + d, e :: r)
  | _ => none

def escapes : List (Char × Char) :=
  [('"', '"'), ('\\', '\\'), ('/', '/'), ('b', '\x08'), ('f', '\x0c'), ('n', '\n'), ('r', '\r'),
    ('t', '\t')]

/-- The character of a code escape whose digits begin the text. Two units that form a pair are
    one character, and half a pair is the replacement character. -/
def codeEscape (s : Text) : Except Fault (Char × Text) :=
  match codeUnit? s with
  | none => .error (.invalidCodeEscape, 'u' :: s)
  | some (high, r) =>
    if 0xd800 ≤ high && high < 0xdc00 then
      match r with
      | '\\' :: 'u' :: t => match codeUnit? t with
        | some (low, rest) =>
          if 0xdc00 ≤ low && low < 0xe000 then
            .ok (Char.ofNat (0x10000 + (high - 0xd800) * 0x400 + (low - 0xdc00)), rest)
          else .ok ('\ufffd', r)
        | none => if t.length ≤ 4 then .ok ('\ufffd', r) else .error (.invalidCodeEscape, 'u' :: t)
      | _ => .ok ('\ufffd', r)
    else if 0xdc00 ≤ high && high < 0xe000 then .ok ('\ufffd', r)
    else .ok (Char.ofNat high, r)

/-- The rest of a text whose opening mark was just passed; `opened` is the text from that mark. -/
def textBody (opened : Text) : Nat → Text → Except Fault (Text × Text)
  | 0, _ => .error (.unterminatedText, opened)
  | _ + 1, [] => .error (.unterminatedText, opened)
  | _ + 1, '"' :: r => .ok ([], r)
  | _ + 1, '\\' :: [] => .error (.unterminatedText, opened)
  | fuel + 1, '\\' :: 'u' :: r => do
    let (c, rest) ← codeEscape r
    let (s, rest) ← textBody opened fuel rest
    pure (c :: s, rest)
  | fuel + 1, '\\' :: e :: r => match Keyed.get? e escapes with
    | some c => do
      let (s, rest) ← textBody opened fuel r
      pure (c :: s, rest)
    | none => .error (.invalidEscape, '\\' :: e :: r)
  | fuel + 1, c :: r =>
    if c.toNat < 32 then .error (.controlCharacter, c :: r)
    else do
      let (s, rest) ← textBody opened fuel r
      pure (c :: s, rest)

/-- The digits of a whole part, which begins with zero only when it is zero. -/
def wholePart? : Text → Option (Text × Text)
  | '0' :: r => some (['0'], r)
  | s => if (s.takeWhile Text.isAsciiDigit).isEmpty then none
    else some (s.takeWhile Text.isAsciiDigit, s.dropWhile Text.isAsciiDigit)

def fractionPart : Text → Text × Text
  | '.' :: r =>
    let digits := r.takeWhile Text.isAsciiDigit
    if digits.isEmpty then ([], '.' :: r) else ('.' :: digits, r.dropWhile Text.isAsciiDigit)
  | s => ([], s)

def exponentPart : Text → Text × Text
  | c :: r =>
    if c == 'e' || c == 'E' then
      let (sign, body) : Text × Text := match r with
        | '-' :: t => (['-'], t)
        | '+' :: t => (['+'], t)
        | t => ([], t)
      let digits := body.takeWhile Text.isAsciiDigit
      if digits.isEmpty then ([], c :: r)
      else ('e' :: sign ++ digits, body.dropWhile Text.isAsciiDigit)
    else ([], c :: r)
  | [] => ([], [])

/-- A number at the front of the text. -/
def number (s : Text) : Except Fault (Json × Text) :=
  let (sign, body) : Text × Text := match s with
    | '-' :: r => (['-'], r)
    | r => ([], r)
  match wholePart? body with
  | none => .error (.expectingValue, s)
  | some (whole, r) =>
    let (fraction, r) := fractionPart r
    let (exponent, r) := exponentPart r
    if fraction.isEmpty && exponent.isEmpty then
      match Number.readInteger (sign ++ whole) with
      | .ok n => .ok (int n, r)
      | .error e => .error (.integer e, s)
    else match Number.readFloat? (sign ++ whole ++ fraction ++ exponent) with
      | some x => .ok (float x, r)
      | none => .error (.expectingValue, s)

def infinity : Float := Float.ofBits 0x7ff0000000000000
def notANumber : Float := Float.ofBits 0x7ff8000000000000

def words : List (Text × Json) :=
  [("null", null), ("true", bool true), ("false", bool false), ("NaN", float notANumber),
    ("Infinity", float infinity), ("-Infinity", float (-infinity))]

/-- A word or number at the front of the text. -/
def scalar (s : Text) : Except Fault (Json × Text) :=
  match words.find? fun (word, _) => word.isPrefixOf s with
  | some (word, v) => .ok (v, s.drop word.length)
  | none => number s

mutual

/-- A value at the front of the text; the fuel bounds the work and is never short when it exceeds
    the length. -/
def value : Nat → Text → Except Fault (Json × Text)
  | 0, s => .error (.expectingValue, s)
  | fuel + 1, s => match s with
    | '"' :: r => do
      let (t, rest) ← textBody s (r.length + 1) r
      pure (string t, rest)
    | '\x7b' :: r => match skipSpace r with
      | '\x7d' :: rest => .ok (object [], rest)
      | t => do
        let (members, rest) ← readMembers fuel [] t
        pure (object members, rest)
    | '[' :: r => match skipSpace r with
      | ']' :: rest => .ok (array [], rest)
      | t => do
        let (items, rest) ← readItems fuel t
        pure (array items, rest)
    | _ => scalar s

/-- The items of an array up to its closing bracket. -/
def readItems : Nat → Text → Except Fault (List Json × Text)
  | 0, s => .error (.expectingValue, s)
  | fuel + 1, s => do
    let (v, r) ← value fuel s
    match skipSpace r with
    | ']' :: rest => pure ([v], rest)
    | ',' :: rest => do
      let (vs, rest) ← readItems fuel (skipSpace rest)
      pure (v :: vs, rest)
    | t => .error (.expectingComma, t)

/-- The members of an object up to its closing brace, added to those before. -/
def readMembers : Nat → List (Text × Json) → Text → Except Fault (List (Text × Json) × Text)
  | 0, _, s => .error (.expectingValue, s)
  | fuel + 1, held, s => match s with
    | '"' :: r => do
      let (name, r) ← textBody s (r.length + 1) r
      match skipSpace r with
      | ':' :: t => do
        let (v, t) ← value fuel (skipSpace t)
        let held := Keyed.put name v held
        match skipSpace t with
        | '\x7d' :: rest => pure (held, rest)
        | ',' :: rest => readMembers fuel held (skipSpace rest)
        | u => .error (.expectingComma, u)
      | t => .error (.expectingColon, t)
    | _ => .error (.expectingName, s)

end

/-- A whole text, spaces around the value allowed. -/
def readPlain (s : Text) : Except JsonError Json :=
  let located (fault : Fault) : JsonError := ⟨fault.1, s.length - fault.2.length⟩
  match value (s.length + 1) (skipSpace s) with
  | .error fault => .error (located fault)
  | .ok (v, r) => match skipSpace r with
    | [] => .ok v
    | t => .error (located (.extraData, t))

/-- A whole text that does not begin with a byte order mark. -/
def read (s : Text) : Except JsonError Json :=
  if s.head? == some '\ufeff' then .error ⟨.byteOrderMark, 0⟩ else readPlain s

/-- A text less one byte order mark at its front. -/
def withoutMark : Text → Text
  | '\ufeff' :: s => s
  | s => s

/-- A text as it is sent: places count after its byte order mark. -/
def readBody (s : Text) : Except JsonError Json := readPlain (withoutMark s)

end Json
end PipelineMigration
