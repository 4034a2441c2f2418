import PipelineMigration.Enrichment.Completion
set_option autoImplicit false

/- What a model says of a capability, and what stands in when it says nothing usable. -/
namespace PipelineMigration.Enrichment

inductive AnalysisStatus where
  | native | partly | unsupported
deriving DecidableEq

namespace AnalysisStatus

def all : List AnalysisStatus := [native, partly, unsupported]

def name : AnalysisStatus → Text
  | native => "native"
  | partly => "partial"
  | unsupported => "unsupported"

def ofName? (s : Text) : Option AnalysisStatus := all.find? (·.name == s)

end AnalysisStatus

structure Analysis where
  capability : Text
  status : AnalysisStatus
  note : Text
  blocking : Bool
  workaround : Bool
  confidence : Float
  equivalent : Option Text := none
  docUrl : Option Text := none
  /-- Whether the model was not heard. -/
  fallback : Bool := false

def fallbackConfidence : Float := 0.6

def fallbackNote : Text :=
  "Automated analysis unavailable; follow the migration checklist for this capability."

def fallbackAnalysis (capability : Text) : Analysis :=
  { capability, status := .partly, note := fallbackNote, blocking := false, workaround := true
    confidence := fallbackConfidence, fallback := true }

/-- Why the model's answer does not count. -/
inductive AnalysisFault where
  | rejected
  /-- A confidence that no double can hold, which is not absorbed. -/
  | overflow
deriving DecidableEq

/-- A number, or a text that spells one. -/
def confidenceOf : Json → Except AnalysisFault Float
  | .bool b => .ok (if b then 1 else 0)
  | .int n => match Number.ofInt? n with
    | some x => .ok x
    | none => .error .overflow
  | .float x => .ok x
  | .string s => match Number.readFloat? s with
    | some x => .ok x
    | none => .error .rejected
  | _ => .error .rejected

/-- The value between zero and one; what is no number counts as one. -/
def clampUnit (x : Float) : Float :=
  let y : Float := if x < 1.0 then x else 1.0
  if 0.0 < y then y else 0.0

/-- The text of a value that says something. -/
def textOf? (v : Option Json) : Option Text := (v.filter Json.truthy).map Json.plain

def isTrue (v : Option Json) : Bool := v.any Json.truthy

/-- The analysis that the members of an object spell. -/
def Analysis.ofMembers (capability : Text) (members : List (Text × Json)) :
    Except AnalysisFault Analysis :=
  let get (name : String) : Option Json := Keyed.get? name.toList members
  let note := Text.trim ((textOf? (get "note")).getD [])
  match AnalysisStatus.ofName? (((get "status").map Json.plain).getD []).lower with
  | none => .error .rejected
  | some status =>
    if note.isEmpty then .error .rejected
    else do
      let confidence ← match get "confidence" with
        | some v => confidenceOf v
        | none => .ok fallbackConfidence
      pure {
        capability, status, note
        blocking := isTrue (get "blocking")
        workaround := isTrue (get "workaround_available")
        confidence := clampUnit confidence
        equivalent := textOf? (get "equivalent")
        docUrl := textOf? (get "doc_url") }

end PipelineMigration.Enrichment
