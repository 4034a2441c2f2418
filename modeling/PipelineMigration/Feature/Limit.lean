import PipelineMigration.Feature.Basic
import PipelineMigration.Number.Integer
import PipelineMigration.Script.Bracket
import PipelineMigration.Text.LetterCase
set_option autoImplicit false

/- Numeric limits: the time a run may take, how often it is tried again and how long its results
   are kept. -/
namespace PipelineMigration.Feature

open Number (IntegerError readInteger)

/-- Time units in milliseconds; the finer ones count as one. -/
def timeUnits : List (Text × Int) :=
  [("NANOSECONDS", 1), ("MICROSECONDS", 1), ("MILLISECONDS", 1), ("SECONDS", 1000),
    ("MINUTES", 60000), ("HOURS", 3600000), ("DAYS", 86400000)]

def unitMillis (name : Text) : Int := (Keyed.get? name.upper timeUnits).getD 60000

/-- The least number of whole minutes that is not shorter. -/
def ceilMinutes (millis : Int) : Int := if millis ≤ 0 then 0 else -(Int.fdiv (-millis) 60000)

def timeoutCall : Pattern := .edge ++ "timeout" ++ .blanks ++ "("
def soleNumber : Pattern := .blanks ++ .capture 1 (.longest 1 Text.isDecimal) ++ .blanks ++ .textEnd

/-- Digits after any number of minus signs. -/
def looksNumeric (s : Text) : Bool :=
  let digits := Text.trimLeftBy (· == '-') s
  !digits.isEmpty && digits.all Text.isDigit

def timeoutAmount? (arguments : Text) (named : List (Text × Text)) : Option Text :=
  ((Keyed.get? "time".toList named).or
    ((soleNumber.matchStart arguments).map (·.captured 1))).filter looksNumeric

/-- The time limit in minutes, zero when there is none. -/
def timeout (s : Text) : Except IntegerError Int :=
  match timeoutCall.firstMatch s with
  | none => .ok 0
  | some m =>
    let arguments := Script.callArguments m
    let named := Script.namedArguments arguments
    match timeoutAmount? arguments named with
    | none => .ok 0
    | some amount => do
      let n ← readInteger amount
      .ok (ceilMinutes (n * unitMillis ((Keyed.get? "unit".toList named).getD "MINUTES".toList)))

def retryCall : Pattern :=
  .edge ++ "retry" ++ .blanks ++ "(" ++ .blanks ++
    .optional ("count" ++ .blanks ++ ":" ++ .blanks) ++ .capture 1 (.longest 1 Text.isDecimal)

def retryCount (s : Text) : Except IntegerError Int :=
  match retryCall.firstMatch s with
  | none => .ok 0
  | some m => readInteger (m.captured 1)

def retentionCall : Pattern := .edge ++ "logRotator" ++ .blanks ++ "("

/-- A named number, the name without the ending that marks a literal. -/
def retentionArgument : Pattern :=
  .capture 1 (.shortest 1 Text.isWord) ++ .optional "Str" ++ .blanks ++ ":" ++ .blanks ++
    .optional .quoteMark ++ .capture 2 (.optional "-" ++ .longest 1 Text.isDecimal)

def retentionValues (arguments : Text) : Except IntegerError (List (Text × Int)) := do
  let pairs ← (retentionArgument.allMatches arguments).mapM fun m => do
    let n ← readInteger (m.captured 2)
    pure (m.captured 1, max n 0)
  pure (Keyed.firstOfPairs pairs)

def retention (s : Text) : Except IntegerError Retention :=
  match retentionCall.firstMatch s with
  | none => .ok {}
  | some m => do
    let values ← retentionValues (Script.callArguments m)
    let amount (name : Text) : Int := (Keyed.get? name values).getD 0
    pure {
      daysToKeep := amount "daysToKeep"
      numToKeep := amount "numToKeep"
      artifactDaysToKeep := amount "artifactDaysToKeep"
      artifactNumToKeep := amount "artifactNumToKeep" }

end PipelineMigration.Feature
