import PipelineMigration.Credential.Plan
import PipelineMigration.Credential.Usage
import PipelineMigration.Credential.Validation
import PipelineMigration.Exchange.Field
import PipelineMigration.Text.LetterCase
set_option autoImplicit false

/- Credentials, the plan of variables and its options as JSON. -/
namespace PipelineMigration.Exchange

def credentialHitOf (v : Json) : CredentialHit :=
  let id := text (member "source_id" v)
  { sourceId := id, line := intOr 1 (member "line" v)
    kind := (ReferenceKind.ofName? (textOr "step" (member "kind" v))).getD .step
    matchedText := textOr id (member "matched_text" v), context := text (member "context" v) }

def credentialHitJson (h : CredentialHit) : Json :=
  obj [("source_id", str h.sourceId), ("line", .int h.line), ("kind", str h.kind.name),
    ("matched_text", str h.matchedText), ("context", str h.context)]

def variableOf (v : Json) : VariableSpec :=
  let key := text (member "key" v)
  { sourceId := textOr key.lower (member "source_id" v), key
    valueKind := (ValueKind.ofName? (textOr "text" (member "value_kind" v))).getD .text
    masked := boolOr true (member "masked" v), protected_ := boolOr true (member "protected" v)
    scope := textOr "*" (member "scope" v), description := text (member "description" v)
    classifier := textOr "token" (member "classifier" v) }

def variableMembers (v : VariableSpec) : List (String × Json) :=
  [("source_id", str v.sourceId), ("key", str v.key), ("value_kind", str v.valueKind.name),
    ("masked", .bool v.masked), ("protected", .bool v.protected_), ("scope", str v.scope),
    ("description", str v.description), ("classifier", str v.classifier)]

def variableJson (v : VariableSpec) : Json := obj (variableMembers v)

def plannedJson (p : PlannedCredential) : Json :=
  obj (variableMembers p.own ++
    if p.children.isEmpty then [] else [("children", arr variableJson p.children)])

def validationJson (r : ValidationReport) : Json :=
  obj [("valid", .bool r.valid), ("errors", arr str r.errors), ("warnings", arr str r.warnings)]

def usageJson (u : CredentialUsage) : Json :=
  obj [("total", num u.total), ("by_kind", .object (u.byKind.map fun (k, n) => (k, num n))),
    ("potential_secrets", arr str u.potentialSecrets),
    ("recommendations", arr str u.recommendations)]

def bool? (v : Json) : Option Bool := match v with
  | .bool b => some b
  | _ => none

def mappingOf (v : Json) : CustomMapping :=
  { key := text? (member "key" v)
    valueKind := (text? (member "value_kind" v)).bind ValueKind.ofName?
    masked := bool? (member "masked" v), protected_ := bool? (member "protected" v)
    scope := text? (member "scope" v), description := text? (member "description" v) }

def optionsOf (v : Json) : PlanOptions :=
  { environmentScope := textOr "*" (member "environment_scope" v)
    forceProtected := boolOr true (member "force_protected" v)
    customMappings := (members (member "custom_mappings" v)).map fun (k, m) => (k, mappingOf m) }

end PipelineMigration.Exchange
