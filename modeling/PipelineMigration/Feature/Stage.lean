import PipelineMigration.Feature.Basic
import PipelineMigration.Script.Bracket
import PipelineMigration.Text.Alphabet
set_option autoImplicit false

/- Stages: every stage by name, and those that run in parallel. -/
namespace PipelineMigration.Feature

def stageCall : Pattern :=
  .edge ++ "stage" ++ .blanks ++ "(" ++ .blanks ++
    .optional ("name" ++ .blanks ++ ":" ++ .blanks) ++ .quoteMark ++ .unquoted 1 ++ .quoteMark

def stageNames (s : Text) : List Text :=
  Keyed.distinct ((stageCall.allMatches s).map (·.captured 1))

/-- Each stage call with its line. -/
def stageLines (s : Text) : List (Text × Nat) :=
  (stageCall.allMatches s).map fun m => (m.captured 1, Text.lineAt s m.start)

/-- The stage called last before an index. -/
def stageBefore (s : Text) (index : Nat) : Text :=
  match (stageCall.allMatches (s.take index)).getLast? with
  | some m => m.captured 1
  | none => []

/-- The stages called directly in a block, not inside braces of their own. -/
def directStages (body : Text) : List Text :=
  let marks := Script.code body
  ((stageCall.allMatches body).filter fun m => Script.braceDepth (marks.take m.start) == 0).map
    (·.captured 1)

def parallelCall : Pattern :=
  .notAfter Script.isWordOrDot ++ "parallel" ++ .blanks ++
    .aheadIs fun c => c == '(' || c == '[' || Text.isQuote c

def isMapOpening (c : Char) : Bool :=
  c == '(' || c == '[' || c == ' ' || c == '\t' || c == '\r' || c == '\n'

def branchEntry : Pattern :=
  .blanks ++ .optional "," ++ .blanks ++ .quoteMark ++ .unquoted 1 ++ .quoteMark ++ .blanks ++
    ":" ++ .blanks ++ "\x7b"

/-- The names of `'name': {` entries that follow one another, each body passed over whole. -/
def branchNames (s : Text) : List Text :=
  match branchEntry.matchStart s with
  | none => []
  | some m =>
    let body := m.after.ahead
    match Script.enclosedLength '\x7b' '\x7d' body with
    | none => [m.captured 1]
    | some n =>
      let rest := body.drop (n + 1)
      m.captured 1 :: if _h : rest.length < s.length then branchNames rest else []
termination_by s.length
decreasing_by exact _h

def parallelStages (s : Text) : List Text :=
  Keyed.distinct <|
    ((Script.blocks "parallel" s).flatMap fun b => directStages b.body) ++
    (parallelCall.allMatches s).flatMap fun m =>
      branchNames (m.after.ahead.dropWhile isMapOpening)

/- Conditions of `when` blocks, in the order of the script, each with the stage called last
   before its block. -/

def quotedTail : Pattern := .quoteMark ++ .unquoted 1 ++ .quoteMark

/-- A step that takes a pattern, with or without parentheses and argument name. -/
def patternStep (step : String) : Pattern :=
  .edge ++ step ++ .blanks ++ .optional "(" ++ .blanks ++
    .optional ("pattern" ++ .blanks ++ ":" ++ .blanks) ++ quotedTail

def environmentTest : Pattern :=
  .edge ++ "environment" ++ .longest 1 Text.isBlank ++ "name" ++ .blanks ++ ":" ++ .blanks ++
    .quoteMark ++ .capture 1 (.longest 1 Text.isWord) ++ .quoteMark ++ .blanks ++ "," ++ .blanks ++
    "value" ++ .blanks ++ ":" ++ .blanks ++
    .quoteMark ++ .capture 2 (.longest 0 fun c => !Text.isQuote c) ++ .quoteMark

def tagTest : Pattern :=
  .edge ++ "buildingTag" ++ .blanks ++ "(" ++ .blanks ++ ")"

def changeTest : Pattern := .edge ++ "changeRequest" ++ .edge

/-- A condition of a `when` block and where it stands there. -/
structure Condition where
  index : Nat
  kind : GuardCondition
  expression : Text := []

def environmentCondition (m : Match) : Condition :=
  ⟨m.start, .environment, m.captured 1 ++ " == ".toList ++ m.captured 2⟩

/-- The conditions of a `when` block, by kind. -/
def conditionsIn (body : Text) : List Condition :=
  (Script.blocks "expression" body).map (fun b =>
    ⟨b.offset, .expression, Text.squeeze b.body⟩) ++
  ((patternStep "branch").allMatches body).map (fun m => ⟨m.start, .branch, m.captured 1⟩) ++
  (environmentTest.allMatches body).map environmentCondition ++
  ((patternStep "tag").allMatches body).map (fun m => ⟨m.start, .tag, m.captured 1⟩) ++
  (tagTest.allMatches body).map (fun m => ⟨m.start, .buildingTag, []⟩) ++
  (changeTest.allMatches body).map (fun m => ⟨m.start, .changeRequest, []⟩)

def guards (s : Text) : List Guard :=
  (Script.blocks "when" s).flatMap fun b =>
    let stage := stageBefore s b.offset
    ((conditionsIn b.body).mergeSort fun x y => x.index ≤ y.index).map fun c =>
      { condition := c.kind, expression := c.expression, stage }

end PipelineMigration.Feature
