import PipelineMigration.Credential.Classifier
import PipelineMigration.Credential.Key
import PipelineMigration.Keyed
set_option autoImplicit false

/- The plan of variables for the credentials of a script. -/
namespace PipelineMigration

/-- What a caller fixes for one credential; what is left out is inferred. -/
structure CustomMapping where
  key : Option Text := none
  valueKind : Option ValueKind := none
  masked : Option Bool := none
  protected_ : Option Bool := none
  scope : Option Text := none
  description : Option Text := none
deriving DecidableEq

structure PlanOptions where
  environmentScope : Text := "*"
  forceProtected : Bool := true
  customMappings : List (Text × CustomMapping) := []
deriving DecidableEq

namespace Credential

/-- The given text unless it is empty. -/
def givenOr (given : Option Text) (otherwise : Text) : Text :=
  match given with
  | some s => if s.isEmpty then otherwise else s
  | none => otherwise

def origin (description sourceId : Text) : Text :=
  description ++ " (from Jenkins: " ++ sourceId ++ ")"

def planned (p : KeyPolicy) (options : PlanOptions) (hit : CredentialHit) : PlannedCredential :=
  let custom := (Keyed.get? hit.sourceId options.customMappings).getD {}
  let classifier := Classifier.of hit
  let own : VariableSpec := {
    sourceId := hit.sourceId
    key := p.key (givenOr custom.key hit.sourceId)
    valueKind := custom.valueKind.getD classifier.valueKind
    masked := custom.masked.getD classifier.masked
    protected_ := custom.protected_.getD (options.forceProtected || classifier.protected_)
    scope := givenOr custom.scope options.environmentScope
    description := givenOr custom.description (origin classifier.description hit.sourceId)
    classifier := classifier.name }
  { own
    children := classifier.children.map fun (ending, description) => { own with
      key := p.childKey own.key ending
      description := origin description hit.sourceId } }

def plan (p : KeyPolicy) (options : PlanOptions) (hits : List CredentialHit) :
    List PlannedCredential :=
  hits.map (planned p options)

/-- The variables of a plan, the first claim to a key counting, in the order of keys. -/
def specs (plan : List PlannedCredential) : List VariableSpec :=
  ((Keyed.firstOfPairs ((plan.flatMap (·.specs)).map fun v => (v.key, v))).map
    (·.2)).mergeSort fun a b => Text.notAfter a.key b.key

def resolve (p : KeyPolicy) (options : PlanOptions) (hits : List CredentialHit) :
    List VariableSpec :=
  specs (plan p options hits)

/-- Whether nothing but the form of reference told what the variable is. -/
def needsReview (v : VariableSpec) : Bool := v.classifier == Classifier.generic.name

end Credential
end PipelineMigration
