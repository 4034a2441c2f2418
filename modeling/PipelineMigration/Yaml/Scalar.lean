import PipelineMigration.Yaml.Tag
import PipelineMigration.Yaml.Token
import PipelineMigration.Yaml.Value
set_option autoImplicit false

/- Values of scalars by their tags. -/
namespace PipelineMigration.Yaml.Scalar

def withoutLow (s : Text) : Text := s.filter (· != '_')

/-- The digit values of a numeral in a base of at most sixteen. -/
def digitIn? (base : Nat) (c : Char) : Option Nat :=
  let value := match Text.decimalValue? c with
    | some d => d
    | none => if 'a' ≤ c && c ≤ 'f' then c.toNat - 87
      else if 'A' ≤ c && c ≤ 'F' then c.toNat - 55 else 16
  if value < base then some value else none

/-- The mark that may stand before the digits of a base. -/
def baseMark (base : Nat) : List Text :=
  if base == 2 then ["0b", "0B"] else if base == 8 then ["0o", "0O"] else ["0x", "0X"]

/-- A whole number in base two, eight or sixteen. -/
def inBase (base : Nat) (s : Text) : Except Fault Int :=
  let (negative, body) := Number.splitSign (Text.trimBy Number.isPadding s)
  let body := if (baseMark base).any (·.isPrefixOf body) then body.drop 2 else body
  match body.mapM (digitIn? base) with
  | some (d :: ds) =>
    let n := (d :: ds).foldl (fun n d => base * n + d) 0
    .ok (if negative then -(n : Int) else n)
  | _ => .error (.notAnInteger base s)

def inTen (s : Text) : Except Fault Int := (Number.readInteger s).mapError .integer

/-- Numbers parted by colons, each worth sixty times the next. -/
def sexagesimal (s : Text) : Except Fault Int := do
  let parts ← (Text.splitWhere (· == ':') s).mapM inTen
  pure (parts.foldl (fun n d => 60 * n + d) 0)

/-- The sign of a numeral and the rest, which must not be empty. -/
def signed (s : Text) : Except Fault (Bool × Text) :=
  match Number.splitSign s with
  | (_, []) => .error .emptyNumber
  | parts => .ok parts

def int (s : Text) : Except Fault Int := do
  let (negative, s) ← signed (withoutLow s)
  let n ←
    if s = "0" then .ok 0
    else if Text.startsWith s "0b" then inBase 2 (s.drop 2)
    else if Text.startsWith s "0x" then inBase 16 (s.drop 2)
    else if Text.startsWith s "0" then inBase 8 s
    else if s.contains ':' then sexagesimal s
    else inTen s
  pure (if negative then -n else n)

def decimalFloat (s : Text) : Except Fault Float :=
  match Number.readFloat? s with
  | some x => .ok x
  | none => .error (.notAFloat s)

/-- The parts from the last one on, each worth sixty times the one before. -/
def sixtiesSum (worth : Int) (sum : Float) : List Float → Float
  | [] => sum
  | x :: rest => sixtiesSum (worth * 60) (sum + x * Number.nearest worth 1) rest

def float (s : Text) : Except Fault Float := do
  let (negative, s) ← signed (withoutLow s).lower
  let x ←
    if s = ".inf" then .ok (Float.ofBits 0x7ff0000000000000)
    else if s = ".nan" then .ok (Float.ofBits 0x7ff8000000000000)
    else if s.contains ':' then do
      let parts ← (Text.splitWhere (· == ':') s).mapM decimalFloat
      pure (sixtiesSum 1 0 parts.reverse)
    else decimalFloat s
  pure (if negative && !x.isNaN then -x else x)

def bool (s : Text) : Except Fault Bool :=
  match Keyed.get? s.lower Tag.truthWords with
  | some b => .ok b
  | none => .error (.notABoolean s.lower)

open Pattern in
/-- A date, or date and time, its numbers captured. -/
def timePattern : Pattern :=
  capture 1 Tag.fourDigits ++ "-" ++ capture 2 Tag.oneOrTwo ++ "-" ++ capture 3 Tag.oneOrTwo ++
    optional (orElse (one fun c => c == 'T' || c == 't') (Tag.tabsOrSpaces 1) ++
      capture 4 Tag.oneOrTwo ++ ":" ++ capture 5 Tag.twoDigits ++ ":" ++ capture 6 Tag.twoDigits ++
      optional ("." ++ capture 7 (longest 0 Text.isAsciiDigit)) ++
      optional (Tag.tabsOrSpaces 0 ++ orElse (capture 8 "Z") (capture 9 Tag.signMark ++
        capture 10 Tag.oneOrTwo ++ optional (":" ++ capture 11 Tag.twoDigits)))) ++ veryEnd

def number (s : Text) : Nat := s.foldl (fun n c => 10 * n + (c.toNat - 48)) 0

/-- The offset in minutes where the time names one. -/
def offset? (m : Match) : Option Int :=
  match m.text? 9 with
  | some sign =>
    let minutes : Nat := number (m.captured 10) * 60 + number (m.captured 11)
    some (if sign == ['-'] then -(minutes : Int) else minutes)
  | none => (m.text? 8).map fun _ => 0

def checked (t : Timestamp) : Except Fault Timestamp :=
  match t.fault? with
  | some f => .error (.calendar f)
  | none => .ok t

def time (s : Text) : Except Fault Value := do
  match timePattern.matchStart s with
  | none => .error .notATime
  | some m =>
    let n (slot : Nat) : Nat := number (m.captured slot)
    let day : Timestamp := { year := n 1, month := n 2, day := n 3 }
    if (m.captured 4).isEmpty then pure (.date (← checked day))
    else
      let offset := offset? m
      if offset.any fun o => 1440 ≤ o.natAbs then .error (.calendar (.offset (offset.getD 0)))
      else pure (.time (← checked { day with
        hour := n 4, minute := n 5, second := n 6
        microsecond := number ((m.captured 7 ++ List.replicate 6 '0').take 6)
        offset := offset.map (· * 60000000) }))

/-- The six bits that a character stands for. -/
def sextet? (c : Char) : Option Nat :=
  if 'A' ≤ c && c ≤ 'Z' then some (c.toNat - 65)
  else if 'a' ≤ c && c ≤ 'z' then some (c.toNat - 71)
  else if '0' ≤ c && c ≤ '9' then some (c.toNat + 4)
  else if c == '+' then some 62 else if c == '/' then some 63 else none

/-- Bytes from groups of four characters. `held` are the bits of the characters of the group so
    far, `have_` how many there are, and `pads` the padding marks after them; other characters are
    passed over. -/
def sextets (held have_ pads : Nat) : Text → Option (List Nat)
  | [] => if have_ = 0 then some [] else none
  | c :: r =>
    if c == '=' then
      if 2 ≤ have_ && 4 ≤ have_ + pads + 1 then some [] else
        sextets held have_ (if 2 ≤ have_ then pads + 1 else pads) r
    else match sextet? c with
      | none => sextets held have_ pads r
      | some v =>
        let all := held * 64 + v
        if have_ = 0 then sextets v 1 0 r
        else if have_ = 1 then (sextets (all % 16) 2 0 r).map (all / 16 % 256 :: ·)
        else if have_ = 2 then (sextets (all % 4) 3 0 r).map (all / 4 % 256 :: ·)
        else (sextets 0 0 0 r).map (all % 256 :: ·)

def bytes (s : Text) : Except Fault (List Nat) :=
  if s.any fun c => 128 ≤ c.toNat then .error .malformed
  else match sextets 0 0 0 s with
    | some bs => .ok bs
    | none => .error .malformed

/-- The value of a scalar under a tag that scalars can have. -/
def value (tag : Tag) (s : Text) : Except Fault Value :=
  match tag with
  | .null => .ok .null
  | .bool => (bool s).map .bool
  | .int => (int s).map .int
  | .float => (float s).map .float
  | .binary => (bytes s).map .bytes
  | .time => time s
  | .text => .ok (.text s)
  | _ => .error .malformed

end PipelineMigration.Yaml.Scalar
