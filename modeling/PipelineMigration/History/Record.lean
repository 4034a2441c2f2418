import PipelineMigration.Json.Basic
set_option autoImplicit false

/- What is kept of a migration, and of every operation that is audited. -/
namespace PipelineMigration

structure MigrationRecord where
  id : Int
  sourceName : Option Text
  sourceText : Text
  outputText : Text
  checklist : Text
  readinessScore : Int
  complexityTier : Text
  extractionConfidence : Float
  capabilityCount : Int
  variableCount : Int
  reviewCount : Int
  createdAt : Text

inductive AuditAction where
  | translate | capabilityScan | credentialScan
deriving DecidableEq

namespace AuditAction

def all : List AuditAction := [translate, capabilityScan, credentialScan]

def name : AuditAction → Text
  | translate => "translate"
  | capabilityScan => "plugin_scan"
  | credentialScan => "credential_scan"

/-- The constant that stands for the action in displays of an event. -/
def constant (a : AuditAction) : Text := a.name.map Char.toUpper

def ofName? (s : Text) : Option AuditAction := all.find? (·.name == s)

end AuditAction

structure AuditEvent where
  id : Int
  action : AuditAction
  actor : Text
  details : Json
  recordId : Option Int
  createdAt : Text

/-- A record to be: an id may be asked for, and what is left out has a default or is missed. -/
structure RecordDraft where
  id : Option Int := none
  sourceName : Option Text := none
  sourceText : Option Text := none
  outputText : Option Text := none
  checklist : Text := []
  readinessScore : Option Int := none
  complexityTier : Option Text := none
  extractionConfidence : Option Float := none
  capabilityCount : Int := 0
  variableCount : Int := 0
  reviewCount : Int := 0

structure EventDraft where
  id : Option Int := none
  action : Option AuditAction := none
  actor : Text := "api"
  details : Json := .object []
  recordId : Option Int := none

/-- The whole numbers that a draft would store. -/
def RecordDraft.numbers (d : RecordDraft) : List Int :=
  d.id.toList ++ d.readinessScore.toList ++ [d.capabilityCount, d.variableCount, d.reviewCount]

def EventDraft.numbers (d : EventDraft) : List Int := d.id.toList ++ d.recordId.toList

/-- The record of a draft under an id, unless the draft lacks something; a confidence that is no
    number counts as lacking. -/
def RecordDraft.record? (d : RecordDraft) (id : Int) (createdAt : Text) :
    Option MigrationRecord := do
  let sourceText ← d.sourceText
  let outputText ← d.outputText
  let readinessScore ← d.readinessScore
  let complexityTier ← d.complexityTier
  let extractionConfidence ← d.extractionConfidence.filter (!·.isNaN)
  some {
    id, sourceName := d.sourceName, sourceText, outputText, checklist := d.checklist
    readinessScore, complexityTier, extractionConfidence
    capabilityCount := d.capabilityCount, variableCount := d.variableCount
    reviewCount := d.reviewCount, createdAt }

def EventDraft.event? (d : EventDraft) (id : Int) (createdAt : Text) : Option AuditEvent :=
  d.action.map fun action =>
    { id, action, actor := d.actor, details := d.details, recordId := d.recordId, createdAt }

namespace Display

/-- A text in quotes, a long one as its length. -/
def brief (s : Text) : Text :=
  if 40 < s.length then "<" ++ Text.ofNat s.length ++ " chars>" else s.display

def optional {α : Type} (f : α → Text) : Option α → Text
  | some a => f a
  | none => "None"

def fields (name : Text) (fields : List (String × Text)) : Text :=
  name ++ "(" ++ Text.join ", " (fields.map fun (k, v) => k.toList ++ '=' :: v) ++ ")"

end Display

/-- A record on one line. -/
def MigrationRecord.display (r : MigrationRecord) : Text :=
  Display.fields "MigrationRecord" [
    ("source_name", Display.optional Display.brief r.sourceName),
    ("source_text", Display.brief r.sourceText), ("output_text", Display.brief r.outputText),
    ("checklist", Display.brief r.checklist), ("readiness_score", Text.ofInt r.readinessScore),
    ("complexity_tier", Display.brief r.complexityTier),
    ("extraction_confidence", Number.floatText r.extractionConfidence),
    ("plugin_count", Text.ofInt r.capabilityCount),
    ("variable_count", Text.ofInt r.variableCount), ("review_count", Text.ofInt r.reviewCount),
    ("id", Text.ofInt r.id), ("created_at", r.createdAt)]

def AuditEvent.display (e : AuditEvent) : Text :=
  Display.fields "AuditEvent" [
    ("action", "<AuditAction." ++ e.action.constant ++ ": " ++ e.action.name.display ++ ">"),
    ("actor", Display.brief e.actor), ("details", e.details.display),
    ("record_id", Display.optional Text.ofInt e.recordId), ("id", Text.ofInt e.id),
    ("created_at", e.createdAt)]

end PipelineMigration
