import PipelineMigration.Credential.EnvFile
import PipelineMigration.Credential.Provisioning
import PipelineMigration.Credential.Usage
import PipelineMigration.History.Store
import PipelineMigration.Migration
import PipelineMigration.Service.Field
set_option autoImplicit false

/- The bodies of answers. -/
namespace PipelineMigration.Service

def version : Text := "0.1.0"

def list {α : Type} (f : α → Json) (items : List α) : Json := .array (items.map f)
def optionalText : Option Text → Json := Json.ofOption .string

def healthBody : Json := .ofMembers [("status", .string "healthy"), ("version", .string version)]
def detailBody (detail : Text) : Json := .ofMembers [("detail", .string detail)]

def stepBody : Step → Json
  | .name name => .string name
  | .index n => .nat n

def faultBody (f : PlacedFault) : Json :=
  .ofMembers [("type", .string f.fault.name), ("loc", list stepBody f.place)]

def errorBody (error message : Text) (details : Json) : Json :=
  .ofMembers [("error", .string error), ("message", .string message), ("details", details)]

def verdictBody (v : Verdict) : Json :=
  .ofMembers [("id", .string v.id), ("tier", .string v.tier.name),
    ("complexity", .string v.complexity.name), ("note", .string v.note),
    ("confidence", .float v.confidence), ("equivalent", optionalText v.equivalent),
    ("include", optionalText v.include_), ("documentation", optionalText v.documentation),
    ("alternative", optionalText v.alternative),
    ("enrichment_note", optionalText v.enrichmentNote),
    ("lines", list (fun h => .int h.line) v.hits)]

def readinessBody (r : Readiness) : Json :=
  .ofMembers [("total", .nat r.total), ("native", .nat r.native), ("templated", .nat r.templated),
    ("limited", .nat r.limited), ("unsupported", .nat r.unsupported), ("score", .nat r.score)]

def variableBody (v : VariableSpec) : Json :=
  .ofMembers [("source_id", .string v.sourceId), ("key", .string v.key),
    ("value_kind", .string v.valueKind.name), ("masked", .bool v.masked),
    ("protected", .bool v.protected_), ("scope", .string v.scope),
    ("description", .string v.description), ("classifier", .string v.classifier)]

def validationBody (r : ValidationReport) : Json :=
  .ofMembers [("valid", .bool r.valid), ("errors", .strings r.errors),
    ("warnings", .strings r.warnings)]

def lintBody (r : LintReport) : Json :=
  .ofMembers [("valid", .bool r.valid), ("errors", .strings r.errors), ("warnings", .array [])]

def regionBody (r : UnparsedRegion) : Json :=
  .ofMembers [("text", .string r.text), ("start_line", .nat r.startLine),
    ("end_line", .nat r.endLine), ("reason", .string r.reason)]

def extractionBody (e : Extraction) : Json :=
  .ofMembers [("method", .string e.method.name), ("confidence", .float e.confidence),
    ("style", .string e.features.style.name), ("stages", .strings e.features.stageNames),
    ("unparsed", list regionBody e.unparsed)]

/-- A migration, whether the model said something about it, and the id of its record. -/
def migrationBody (m : Migration) (enriched : Bool) (recordId : Option Int) : Json :=
  .ofMembers [("configuration", .string m.configuration), ("checklist", .string m.checklist),
    ("summary", readinessBody m.readiness), ("complexity_tier", .string m.tier.name),
    ("extraction", extractionBody m.extraction), ("verdicts", list verdictBody m.verdicts),
    ("variables", list variableBody m.specs), ("validation", validationBody m.validation),
    ("lint", lintBody m.lint), ("review_count", .nat m.reviewCount),
    ("enriched", .bool enriched), ("record_id", Json.ofOption .int recordId)]

def capabilityHitBody (h : CapabilityHit) : Json :=
  .ofMembers [("id", .string h.id), ("line", .int h.line), ("matched_text", .string h.matchedText),
    ("confidence", .string h.confidence.name)]

def capabilityScanBody (hits : List CapabilityHit) (verdicts : List Verdict) : Json :=
  .ofMembers [("hits", list capabilityHitBody hits), ("verdicts", list verdictBody verdicts),
    ("summary", readinessBody (Capability.summarize verdicts)),
    ("checklist", .string (Capability.checklist verdicts none))]

def credentialHitBody (h : CredentialHit) : Json :=
  .ofMembers [("source_id", .string h.sourceId), ("line", .int h.line),
    ("kind", .string h.kind.name), ("matched_text", .string h.matchedText)]

def usageBody (u : CredentialUsage) : Json :=
  .ofMembers [("total", .nat u.total),
    ("by_kind", .object (u.byKind.map fun (k, n) => (k, .nat n))),
    ("potential_secrets", .strings u.potentialSecrets),
    ("recommendations", .strings u.recommendations)]

def credentialScanBody (keys : KeyPolicy) (hits : List CredentialHit)
    (specs : List VariableSpec) (projectId : Text) (dryRun : Bool) (batchSize : Int) : Json :=
  .ofMembers [("hits", list credentialHitBody hits), ("variables", list variableBody specs),
    ("validation", validationBody (keys.validate specs)),
    ("analysis", usageBody (Credential.usage hits)),
    ("env_file", .string (Credential.envFile specs)),
    ("provisioning_script",
      .string (Credential.provisioningScript projectId dryRun batchSize specs))]

def recordMembers (r : MigrationRecord) : List (String × Json) :=
  [("id", .int r.id), ("source_name", optionalText r.sourceName),
    ("readiness_score", .int r.readinessScore), ("complexity_tier", .string r.complexityTier),
    ("extraction_confidence", .float r.extractionConfidence),
    ("plugin_count", .int r.capabilityCount), ("variable_count", .int r.variableCount),
    ("review_count", .int r.reviewCount), ("created_at", .string r.createdAt)]

def recordBody (r : MigrationRecord) : Json := .ofMembers (recordMembers r)

def recordDetailBody (r : MigrationRecord) : Json :=
  .ofMembers (recordMembers r ++ [("source_text", .string r.sourceText),
    ("output_text", .string r.outputText), ("checklist", .string r.checklist)])

end PipelineMigration.Service
