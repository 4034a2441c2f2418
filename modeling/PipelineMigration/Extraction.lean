import PipelineMigration.Capability.Scan
import PipelineMigration.Feature.Declaration
import PipelineMigration.Feature.Stage
import PipelineMigration.Feature.Limit
import PipelineMigration.Feature.PostAction
import PipelineMigration.Feature.Style
import PipelineMigration.Number.Decimal
import PipelineMigration.Script.Literal
set_option autoImplicit false

/- The feature set of a script and how far it can be trusted. A script with a closed root block
   is trusted fully. Any other is scanned a second time for stages, calls inside them,
   environment lines and script blocks, and is trusted by the share of lines that stages explain. -/
namespace PipelineMigration

inductive ExtractionMethod where
  | primary | fallback
deriving DecidableEq

def ExtractionMethod.name : ExtractionMethod → Text
  | primary => "primary"
  | fallback => "fallback"

/-- A block that no feature was read from. -/
structure UnparsedRegion where
  text : Text
  startLine : Nat
  endLine : Nat
  reason : Text
deriving DecidableEq

structure Extraction where
  features : FeatureSet
  confidence : Float
  method : ExtractionMethod
  stageLines : List (Text × Nat) := []
  pluginLines : List (Text × Nat) := []
  unparsed : List UnparsedRegion := []

/-- What the second scan finds. -/
structure RoughScan where
  stageLines : List (Text × Nat)
  pluginLines : List (Text × Nat)
  environment : List (Text × Text)
  unparsed : List UnparsedRegion

namespace RoughScan

def stageBlock : Pattern :=
  .edge ++ "stage" ++ .blanks ++ "(" ++ .blanks ++ .quoteMark ++ .unquoted 1 ++ .quoteMark ++
    .blanks ++ ")" ++ .blanks ++ "\x7b"

def scriptBlock : Pattern :=
  .notAfter Script.isWordOrDot ++ "script" ++ .blanks ++ "\x7b"

/-- A name at the start of a line that opens a call or a block. -/
def callLine : Pattern :=
  .textStart ++ .blanks ++
    .capture 1 (.one Text.isAsciiLetter ++ .longest 0 Text.isWord) ++ .blanks ++
    .one fun c => c == '(' || c == '\x7b'

/-- The calls in a block that may be capabilities, with their lines. -/
def callsIn (excluded : List Text) (firstLine : Nat) (body : Text) : List (Text × Nat) :=
  (Text.lines body).zipIdx.filterMap fun (line, offset) =>
    ((callLine.matchStart line).map (·.captured 1)).bind fun name =>
      if Capability.isExcluded excluded name then none else some (name, firstLine + offset)

def unparsedReason : Text := "Complex script block - requires manual review"

def regionOf (s : Text) (m : Match) : UnparsedRegion :=
  let body := Script.enclosed '\x7b' '\x7d' m.after.ahead
  { text := Text.trim body
    startLine := Text.lineAt s m.start
    endLine := Text.lineAt s (m.stop + body.length)
    reason := unparsedReason }

def of (excluded : List Text) (s : Text) : RoughScan :=
  let stages := stageBlock.allMatches s
  { stageLines := stages.map fun m => (m.captured 1, Text.lineAt s m.start)
    pluginLines := stages.flatMap fun m =>
      callsIn excluded (Text.lineAt s (m.stop - 1)) (Script.enclosed '\x7b' '\x7d' m.after.ahead)
    environment := Feature.roughEnvironment s
    unparsed := (scriptBlock.allMatches s).map (regionOf s) }

/-- Five lines to a stage explain a script; trust starts at 0.4 and ends at 0.9. -/
def confidence (stages lines : Int) : Float :=
  let share := Number.nearest (stages * 5) (max lines 1).toNat
  let capped : Float := if share < 1.0 then share else 1.0
  let trust := capped + 0.4
  Number.roundTo 2 (if trust < 0.9 then trust else 0.9)

end RoughScan

namespace FeatureSet

def ofSource (s : Text) : Except Number.IntegerError FeatureSet := do
  let timeoutMinutes ← Feature.timeout s
  let retryCount ← Feature.retryCount s
  let retention ← Feature.retention s
  pure {
    parameters := Feature.parameters s
    environment := Feature.environment s
    matrix := Feature.matrix s
    timeoutMinutes, retryCount
    postActions := Feature.postActions s
    retention
    credentialBindings :=
      Keyed.distinct (Feature.credentialBindings s ++ Feature.environmentBindings s)
    guards := Feature.guards s
    parallelStages := Feature.parallelStages s
    stageNames := Feature.stageNames s
    libraries := Feature.libraries s
    style := Feature.style s }

end FeatureSet

namespace Extraction

def of (excluded : List Text) (script : Text) : Except Number.IntegerError Extraction := do
  let source := Script.stripComments script
  let features ← FeatureSet.ofSource source
  if features.style ≠ .unknown && Feature.hasClosedRoot source features.style then
    pure { features, confidence := 1, method := .primary, stageLines := Feature.stageLines source }
  else
    let scan := RoughScan.of excluded source
    pure {
      features := { features with
        environment := Keyed.firstOfPairs (features.environment ++ scan.environment) }
      confidence := RoughScan.confidence scan.stageLines.length (Text.lines source).length
      method := .fallback
      stageLines := scan.stageLines
      pluginLines := scan.pluginLines
      unparsed := scan.unparsed }

end Extraction
end PipelineMigration
