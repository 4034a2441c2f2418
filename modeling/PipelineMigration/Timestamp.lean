import PipelineMigration.Number.Decimal
import PipelineMigration.Text.Alphabet
set_option autoImplicit false

/- Dates and times of day in their written form. -/
namespace PipelineMigration

structure Timestamp where
  year : Nat
  month : Nat
  day : Nat
  hour : Nat := 0
  minute : Nat := 0
  second : Nat := 0
  microsecond : Nat := 0
  /-- Microseconds east of the meridian, where the time says so. -/
  offset : Option Int := none
deriving DecidableEq

/-- Why numbers are no date or time. -/
inductive CalendarFault where
  | year (value : Nat) | month | day | hour | minute | second
  /-- An offset of a day or more, in minutes. -/
  | offset (minutes : Int)
deriving DecidableEq

namespace CalendarFault

/-- A length of time in days and seconds, the seconds not negative. -/
def durationText (minutes : Int) : Text :=
  let days := Int.fdiv minutes 1440
  let seconds := Int.fmod minutes 1440 * 60
  "datetime.timedelta(days=" ++ Text.ofInt days ++
    (if seconds = 0 then [] else ", seconds=".toList ++ Text.ofInt seconds) ++ ")"

def message : CalendarFault → Text
  | year value => "year " ++ Text.ofNat value ++ " is out of range"
  | month => "month must be in 1..12"
  | day => "day is out of range for month"
  | hour => "hour must be in 0..23"
  | minute => "minute must be in 0..59"
  | second => "second must be in 0..59"
  | offset minutes => "offset must be a timedelta strictly between -timedelta(hours=24) and " ++
      "timedelta(hours=24), not " ++ durationText minutes ++ "."

end CalendarFault

namespace Timestamp

def two (n : Nat) : Text := Number.padLeft 2 (Text.ofNat n)
def dateText (t : Timestamp) : Text :=
  Number.padLeft 4 (Text.ofNat t.year) ++ '-' :: two t.month ++ '-' :: two t.day

def fractionText (n : Nat) : Text := if n = 0 then [] else '.' :: Number.padLeft 6 (Text.ofNat n)

def offsetText (offset : Int) : Text :=
  let size := offset.natAbs
  let seconds := size / 1000000
  let clock := two (seconds / 3600) ++ ':' :: two (seconds / 60 % 60)
  let rest := if seconds % 60 = 0 ∧ size % 1000000 = 0 then []
    else ':' :: two (seconds % 60) ++ fractionText (size % 1000000)
  (if offset < 0 then '-' else '+') :: clock ++ rest

def clockText (t : Timestamp) : Text :=
  two t.hour ++ ':' :: two t.minute ++ ':' :: two t.second

/-- Date and time, a fraction of a second and an offset where there are any. -/
def textWith (separator : Char) (t : Timestamp) : Text :=
  t.dateText ++ separator :: t.clockText ++ fractionText t.microsecond ++
    (t.offset.map offsetText).getD []

def text (t : Timestamp) : Text := t.textWith 'T'

/-- Date and time to the second, with the offset. -/
def secondsText (t : Timestamp) : Text :=
  t.dateText ++ 'T' :: t.clockText ++ (t.offset.map offsetText).getD []

def isLeap (year : Nat) : Bool := year % 4 == 0 && (year % 100 != 0 || year % 400 == 0)

def daysIn (year month : Nat) : Nat :=
  if month == 2 then if isLeap year then 29 else 28
  else if month == 4 || month == 6 || month == 9 || month == 11 then 30 else 31

/-- The first fault of a date and time, from the year down. -/
def fault? (t : Timestamp) : Option CalendarFault :=
  if t.year < 1 || 9999 < t.year then some (.year t.year)
  else if t.month < 1 || 12 < t.month then some .month
  else if t.day < 1 || daysIn t.year t.month < t.day then some .day
  else if 23 < t.hour then some .hour
  else if 59 < t.minute then some .minute
  else if 59 < t.second then some .second
  else none

/-- Days from the first day of the year zero to a date. -/
def dayNumber (t : Timestamp) : Nat :=
  let past := t.year - 1
  past * 365 + past / 4 - past / 100 + past / 400 +
    (List.range (t.month - 1)).foldr (fun m days => daysIn t.year (m + 1) + days) 0 + t.day

/-- Microseconds since the first day, the offset taken off. -/
def instant (t : Timestamp) : Int :=
  let seconds := t.dayNumber * 86400 + t.hour * 3600 + t.minute * 60 + t.second
  (seconds * 1000000 + t.microsecond : Int) - t.offset.getD 0

/-- Whether two times are the same: the same instant, where both know their offset. -/
def agrees (a b : Timestamp) : Bool := a.offset.isSome == b.offset.isSome && a.instant == b.instant

/-- The time so many seconds after the start of 1970 on the meridian. Years are counted from March,
    so that a leap day is the last of its year. -/
def ofUnixSeconds (seconds : Nat) : Timestamp :=
  let days := seconds / 86400 + 719468
  let dayOfCycle := days % 146097
  let yearOfCycle :=
    (dayOfCycle - dayOfCycle / 1460 + dayOfCycle / 36524 - dayOfCycle / 146096) / 365
  let dayOfYear := dayOfCycle - (365 * yearOfCycle + yearOfCycle / 4 - yearOfCycle / 100)
  let monthFromMarch := (5 * dayOfYear + 2) / 153
  let month := if monthFromMarch < 10 then monthFromMarch + 3 else monthFromMarch - 9
  { year := yearOfCycle + days / 146097 * 400 + (if month ≤ 2 then 1 else 0)
    month, day := dayOfYear - (153 * monthFromMarch + 2) / 5 + 1
    hour := seconds % 86400 / 3600, minute := seconds % 3600 / 60, second := seconds % 60
    offset := some 0 }

/-- A run of exactly `count` digits. -/
def digits? (count : Nat) (s : Text) : Option (Nat × Text) :=
  let ds := s.take count
  if ds.length == count && ds.all Text.isAsciiDigit then
    some (ds.foldl (fun n d => 10 * n + (d.toNat - 48)) 0, s.drop count)
  else none

/-- Up to six digits of a fraction as millionths; further ones are dropped. -/
def fraction? (s : Text) : Option (Nat × Text) :=
  let ds := s.takeWhile Text.isAsciiDigit
  if ds.isEmpty then none
  else
    let six := (ds ++ List.replicate 6 '0').take 6
    (digits? 6 six).map fun (n, _) => (n, s.dropWhile Text.isAsciiDigit)

def afterMark (mark : Char) (s : Text) : Option Text :=
  match s with
  | c :: r => if c == mark then some r else none
  | [] => none

/-- A year, month and day, with hyphens or without. -/
def readDate? (s : Text) : Option ((Nat × Nat × Nat) × Text) := do
  let (year, s) ← digits? 4 s
  match afterMark '-' s with
  | some s => do
    let (month, s) ← digits? 2 s
    let s ← afterMark '-' s
    let (day, s) ← digits? 2 s
    some ((year, month, day), s)
  | none => do
    let (month, s) ← digits? 2 s
    let (day, s) ← digits? 2 s
    some ((year, month, day), s)

/-- Hours, then minutes, seconds and a fraction where they follow, with colons or without. -/
def readClock? (s : Text) : Option ((Nat × Nat × Nat × Nat) × Text) := do
  let (hour, s) ← digits? 2 s
  let next (s : Text) : Option (Nat × Text) := digits? 2 ((afterMark ':' s).getD s)
  match next s with
  | none => some ((hour, 0, 0, 0), s)
  | some (minute, s) => match next s with
    | none => some ((hour, minute, 0, 0), s)
    | some (second, s) =>
      match ((afterMark '.' s).or (afterMark ',' s)).bind fraction? with
      | some (fraction, s) => some ((hour, minute, second, fraction), s)
      | none => some ((hour, minute, second, 0), s)

def microseconds (clock : Nat × Nat × Nat × Nat) : Int :=
  let (hour, minute, second, fraction) := clock
  ((hour * 3600 + minute * 60 + second) * 1000000 + fraction : Nat)

/-- What follows the time of day: nothing, `Z`, or a signed offset. -/
def readOffset? (s : Text) : Option (Option Int) :=
  match s with
  | [] => some none
  | ['Z'] => some (some 0)
  | sign :: r =>
    if sign == '+' || sign == '-' then
      match readClock? r with
      | some (clock, []) =>
        some (some (if sign == '-' then -microseconds clock else microseconds clock))
      | _ => none
    else none

/-- A date, or a date and a time of day with any character between them. -/
def read? (s : Text) : Option Timestamp := do
  let ((year, month, day), s) ← readDate? s
  match s with
  | [] => some { year, month, day }
  | _ :: s =>
    let ((hour, minute, second, microsecond), s) ← readClock? s
    let offset ← readOffset? s
    some { year, month, day, hour, minute, second, microsecond, offset }

end Timestamp
end PipelineMigration
