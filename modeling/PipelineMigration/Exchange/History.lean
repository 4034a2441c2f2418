import PipelineMigration.Exchange.Field
import PipelineMigration.History.Record
set_option autoImplicit false

/- Entries of the history as JSON. -/
namespace PipelineMigration.Exchange

def recordJson (r : MigrationRecord) : Json :=
  obj [("id", .int r.id), ("source_name", opt str r.sourceName),
    ("source_text", str r.sourceText), ("output_text", str r.outputText),
    ("checklist", str r.checklist), ("readiness_score", .int r.readinessScore),
    ("complexity_tier", str r.complexityTier),
    ("extraction_confidence", flt r.extractionConfidence),
    ("plugin_count", .int r.capabilityCount), ("variable_count", .int r.variableCount),
    ("review_count", .int r.reviewCount)]

def eventJson (e : AuditEvent) : Json :=
  obj [("id", .int e.id), ("action", str e.action.name), ("actor", str e.actor),
    ("details", floatsAsText e.details), ("record_id", opt .int e.recordId)]

def recordDraftOf (v : Json) : RecordDraft :=
  { id := int? (member "id" v), sourceName := text? (member "source_name" v)
    sourceText := text? (member "source_text" v), outputText := text? (member "output_text" v)
    checklist := text (member "checklist" v)
    readinessScore := int? (member "readiness_score" v)
    complexityTier := text? (member "complexity_tier" v)
    extractionConfidence := floatNumber? (member "extraction_confidence" v)
    capabilityCount := intOr 0 (member "plugin_count" v)
    variableCount := intOr 0 (member "variable_count" v)
    reviewCount := intOr 0 (member "review_count" v) }

def eventDraftOf (v : Json) : EventDraft :=
  { id := int? (member "id" v)
    action := (text? (member "action" v)).bind AuditAction.ofName?
    actor := textOr "api" (member "actor" v)
    details := (v.get? "details").getD (.object [])
    recordId := int? (member "record_id" v) }

end PipelineMigration.Exchange
