import PipelineMigration.Enrichment.Consultation
import PipelineMigration.History.Store
import PipelineMigration.Migration
set_option autoImplicit false

/- What the service does: it migrates and scans scripts, asks the model for notes where it is
   wanted, and keeps a record of migrations and an audit trail of all. -/
namespace PipelineMigration.Service

open Enrichment

variable {τ : Type} [Clock τ]

/-- How a service is set up. -/
structure Setup (τ : Type) where
  settings : MigrationSettings := {}
  consultation : Consultation τ

/-- When a request is served, in the forms it is written in, and what the model would reply. -/
structure Moment (τ : Type) where
  now : τ
  stamp : Text
  createdAt : Text
  reply : Text → NetworkReply

inductive Failure where
  | migration (error : MigrationError)
  /-- So many of the concurrent tasks broke off. -/
  | tasks (count : Nat)
  | history (error : HistoryError)
deriving DecidableEq

def Failure.message : Failure → Text
  | migration error => error.message
  | tasks count => "unhandled errors in a TaskGroup (" ++ Text.ofNat count ++ " sub-exception" ++
      (if count = 1 then [] else ['s']) ++ ")"
  | history error => error.message

/-- What serving a request comes to, what the model was asked, and the archive afterwards. -/
structure Served (α : Type) where
  result : Except Failure α
  requests : List CompletionRequest := []
  archive : Archive

structure Translated where
  migration : Migration
  enriched : Bool
  recordId : Option Int

structure CapabilityScan where
  hits : List CapabilityHit
  verdicts : List Verdict

structure CredentialScan where
  hits : List CredentialHit
  specs : List VariableSpec

def recordDraft (script : Text) (sourceName : Option Text) (m : Migration) : RecordDraft :=
  { sourceName, sourceText := some script, outputText := some m.configuration
    checklist := m.checklist, readinessScore := some m.readiness.score
    complexityTier := some m.tier.name, extractionConfidence := some m.extraction.confidence
    capabilityCount := m.readiness.total, variableCount := m.specs.length
    reviewCount := m.reviewCount }

def translationEvent (m : Migration) (recordId : Int) : EventDraft :=
  { action := some .translate, recordId := some recordId
    details := .ofMembers [("score", .nat m.readiness.score), ("tier", .string m.tier.name),
      ("method", .string m.extraction.method.name),
      ("variables", .strings (m.specs.map (·.key)))] }

/-- Keeps a record with its event. Without the event the record stays, but is not told of. -/
def keep (createdAt script : Text) (sourceName : Option Text) (m : Migration) (a : Archive) :
    Option Int × Archive :=
  match a.addRecord (recordDraft script sourceName m) createdAt with
  | .error _ => (none, a)
  | .ok (r, a) => match a.addEvent (translationEvent m r.id) createdAt with
    | .error _ => (none, a)
    | .ok (_, a) => (some r.id, a)

/-- Adds an event where that is possible. -/
def audit (createdAt : Text) (action : AuditAction) (found : Json) (a : Archive) : Archive :=
  match a.addEvent { action := some action, details := found } createdAt with
  | .error _ => a
  | .ok (_, a) => a

/-- The verdicts with notes where they are wanted, asked for with a memory of its own. -/
def notes (s : Setup τ) (m : Moment τ) (wanted : Bool) (script project : Text)
    (verdicts : List Verdict) : Enriched :=
  if wanted && !verdicts.isEmpty then
    (enrich s.consultation m.now m.reply script project verdicts {}).1
  else { requests := [], result := .ok verdicts }

/-- The migration of an extracted script. -/
def assemble (s : Setup τ) (m : Moment τ) (options : PlanOptions) (script : Text)
    (extraction : Extraction) (hits : List CapabilityHit) (noted : Enriched) :
    Except Failure Migration := do
  let verdicts ← noted.result.mapError .tasks
  (Migration.assemble s.settings extraction hits verdicts (CredentialReference.scan script) options
    m.stamp).mapError .migration

/-- The migration of a script up to the record of it, and what the model was asked. -/
def migrate (s : Setup τ) (m : Moment τ) (options : PlanOptions) (script : Text) (wanted : Bool)
    (project : Text) : Except Failure Migration × List CompletionRequest :=
  match Migration.checkOptions options, Migration.extract s.settings script with
  | .error e, _ => (.error (.migration e), [])
  | .ok (), .error _ => (.error (.tasks 1), [])
  | .ok (), .ok extraction =>
    let hits := Capability.scan s.settings.tables script
    let noted := notes s m wanted script project (Capability.resolve s.settings.tables hits)
    (assemble s m options script extraction hits noted, noted.requests)

def hasNote (m : Migration) : Bool := m.verdicts.any fun v => (said v.enrichmentNote).isSome

def translate (s : Setup τ) (m : Moment τ) (options : PlanOptions) (script : Text)
    (sourceName : Option Text) (wanted : Bool) (project : Text) (a : Archive) :
    Served Translated :=
  match migrate s m options script wanted project with
  | (.error e, requests) => { result := .error e, requests, archive := a }
  | (.ok migration, requests) =>
    let (recordId, a) := keep m.createdAt script sourceName migration a
    { result := .ok { migration, recordId, enriched := wanted && hasNote migration }
      requests, archive := a }

def scanCapabilities (s : Setup τ) (m : Moment τ) (script : Text) (a : Archive) :
    Served CapabilityScan :=
  let hits := Capability.scan s.settings.tables script
  let verdicts := Capability.resolve s.settings.tables hits
  { result := .ok { hits, verdicts }
    archive := audit m.createdAt .capabilityScan (.ofMembers [
      ("capabilities", .strings (verdicts.map (·.id))),
      ("score", .nat (Capability.summarize verdicts).score)]) a }

def scanCredentials (s : Setup τ) (m : Moment τ) (options : PlanOptions) (script : Text)
    (a : Archive) : Served CredentialScan :=
  match Migration.checkOptions options with
  | .error e => { result := .error (.migration e), archive := a }
  | .ok () =>
    let hits := CredentialReference.scan script
    let specs := Credential.resolve s.settings.keys options hits
    { result := .ok { hits, specs }
      archive := audit m.createdAt .credentialScan (.ofMembers [
        ("credential_ids", .strings (hits.map (·.sourceId))),
        ("keys", .strings (specs.map (·.key)))]) a }

end PipelineMigration.Service
