import PipelineMigration.Capability.Readiness
import PipelineMigration.Capability.Resolution
import PipelineMigration.Configuration.Document
import PipelineMigration.Configuration.Lint
import PipelineMigration.Credential.Validation
import PipelineMigration.Extraction
import PipelineMigration.Json.Basic
set_option autoImplicit false

/- A migration from script to configuration, with everything that was found on the way. -/
namespace PipelineMigration

/-- Tables and limits that a migration works with. -/
structure MigrationSettings where
  tables : Capability.Tables := {}
  keys : KeyPolicy := {}
  review : Configuration.ReviewPolicy := {}

structure Migration where
  extraction : Extraction
  capabilityHits : List CapabilityHit
  verdicts : List Verdict
  readiness : Readiness
  credentialHits : List CredentialHit
  specs : List VariableSpec
  validation : ValidationReport
  tier : ComplexityTier
  configuration : Text
  lint : LintReport
  checklist : Text

inductive MigrationError where
  | notText (kind : Text)
  | notOptions
  | emptyScope
  /-- A number of the script cannot be read or written. -/
  | integer (error : Number.IntegerError)
  /-- The configuration cannot be checked. -/
  | lint (fault : LintFault)
deriving DecidableEq

def MigrationError.message : MigrationError → Text
  | notText kind => "Pipeline script must be a string, got " ++ kind
  | notOptions => "options must be ResolveOptions"
  | emptyScope => "environment_scope must not be empty"
  | integer error => error.message
  | lint fault => fault.message

namespace Migration

/-- How many places of the configuration someone has to look at. -/
def reviewCount (m : Migration) : Nat := Text.occurrences m.configuration Job.reviewMarker

/-- The migration once capabilities are judged; `stamp` tells when it was made. -/
def assemble (s : MigrationSettings) (extraction : Extraction)
    (capabilityHits : List CapabilityHit) (verdicts : List Verdict)
    (credentialHits : List CredentialHit) (options : PlanOptions) (stamp : Text) :
    Except MigrationError Migration := do
  let features := extraction.features
  let tier := ComplexityTier.of verdicts (some features.style)
  let specs := Credential.resolve s.keys options credentialHits
  let configuration ←
    (Configuration.synthesize s.review features verdicts specs tier stamp).mapError .integer
  let lint ← (Lint.check configuration).mapError .lint
  pure {
    extraction, capabilityHits, verdicts, credentialHits, specs, tier, configuration, lint
    readiness := Capability.summarize verdicts
    validation := s.keys.validate specs
    checklist := Capability.checklist verdicts none }

def checkOptions (options : PlanOptions) : Except MigrationError Unit :=
  if (Text.trim options.environmentScope).isEmpty then .error .emptyScope else .ok ()

/-- A script that may be something else than a text. -/
def scriptOf : Json → Except MigrationError Text
  | .string s => .ok s
  | v => .error (.notText v.kindName)

def extract (s : MigrationSettings) (script : Text) : Except MigrationError Extraction :=
  (Extraction.of s.tables.excluded script).mapError .integer

/-- The migration of a script. -/
def translate (s : MigrationSettings) (script : Text) (options : PlanOptions) (stamp : Text) :
    Except MigrationError Migration := do
  checkOptions options
  let extraction ← extract s script
  let hits := Capability.scan s.tables script
  assemble s extraction hits (Capability.resolve s.tables hits) (CredentialReference.scan script)
    options stamp

end Migration
end PipelineMigration
