import PipelineMigration.Text.Basic
import PipelineMigration.Keyed
set_option autoImplicit false

/- What a pipeline script says of itself: parameters, environment, axes, limits, actions after a
   run, credentials bound to variables, conditions on stages, stages and libraries. A name that
   the model does not know is kept as it is. -/
namespace PipelineMigration

inductive ParameterKind where
  | string | boolean | choice | text | password
deriving DecidableEq

namespace ParameterKind

def all : List ParameterKind := [string, boolean, choice, text, password]

def name : ParameterKind → Text
  | string => "string"
  | boolean => "boolean"
  | choice => "choice"
  | text => "text"
  | password => "password"

def ofName? (s : Text) : Option ParameterKind := all.find? (·.name == s)

end ParameterKind

structure Parameter where
  name : Text
  kind : ParameterKind
  default : Text := []
  description : Text := []
  choices : List Text := []
deriving DecidableEq

/-- How long builds and artifacts are kept; zero where the script does not say. -/
structure Retention where
  daysToKeep : Int := 0
  numToKeep : Int := 0
  artifactDaysToKeep : Int := 0
  artifactNumToKeep : Int := 0
deriving DecidableEq

def Retention.isEmpty (r : Retention) : Bool :=
  r.daysToKeep == 0 && r.numToKeep == 0 && r.artifactDaysToKeep == 0 && r.artifactNumToKeep == 0

/-- How a credential is bound: by one of the typed steps or by an environment assignment. -/
inductive BindingForm where
  | usernamePassword | sshUserPrivateKey | certificate | string | file | environment
deriving DecidableEq

namespace BindingForm

def all : List BindingForm :=
  [usernamePassword, sshUserPrivateKey, certificate, string, file, environment]

def name : BindingForm → Text
  | usernamePassword => "usernamePassword"
  | sshUserPrivateKey => "sshUserPrivateKey"
  | certificate => "certificate"
  | string => "string"
  | file => "file"
  | environment => "credentials"

def ofName? (s : Text) : Option BindingForm := all.find? (·.name == s)

end BindingForm

structure CredentialBinding where
  sourceId : Text
  form : BindingForm
  /-- Which argument names which variable. -/
  targets : List (Text × Text) := []
deriving DecidableEq

inductive GuardCondition where
  | expression | branch | environment | tag | buildingTag | changeRequest
  | other (name : Text)
deriving DecidableEq

namespace GuardCondition

def known : List GuardCondition :=
  [expression, branch, environment, tag, buildingTag, changeRequest]

def name : GuardCondition → Text
  | expression => "expression"
  | branch => "branch"
  | environment => "environment"
  | tag => "tag"
  | buildingTag => "buildingTag"
  | changeRequest => "changeRequest"
  | other name => name

def ofName (s : Text) : GuardCondition := (known.find? (·.name == s)).getD (other s)

end GuardCondition

/-- A condition and the stage that runs only when it holds. -/
structure Guard where
  condition : GuardCondition
  expression : Text
  stage : Text := []
deriving DecidableEq

/-- The outcome after which actions run. -/
inductive PostPhase where
  | always | changed | fixed | regression | aborted | failure | success | unstable | cleanup
  | other (name : Text)
deriving DecidableEq

namespace PostPhase

def known : List PostPhase :=
  [always, changed, fixed, regression, aborted, failure, success, unstable, cleanup]

def name : PostPhase → Text
  | always => "always"
  | changed => "changed"
  | fixed => "fixed"
  | regression => "regression"
  | aborted => "aborted"
  | failure => "failure"
  | success => "success"
  | unstable => "unstable"
  | cleanup => "cleanup"
  | other name => name

def ofName (s : Text) : PostPhase := (known.find? (·.name == s)).getD (other s)

end PostPhase

inductive PostAction where
  | slackNotification | emailNotification | cleanupWorkspace | archiveArtifacts | junitReport
  | other (name : Text)
deriving DecidableEq

namespace PostAction

def known : List PostAction :=
  [slackNotification, emailNotification, cleanupWorkspace, archiveArtifacts, junitReport]

def name : PostAction → Text
  | slackNotification => "slack_notification"
  | emailNotification => "email_notification"
  | cleanupWorkspace => "cleanup_workspace"
  | archiveArtifacts => "archive_artifacts"
  | junitReport => "junit_report"
  | other name => name

def ofName (s : Text) : PostAction := (known.find? (·.name == s)).getD (other s)

end PostAction

inductive PipelineStyle where
  | declarative | scripted | unknown
  | other (name : Text)
deriving DecidableEq

namespace PipelineStyle

def known : List PipelineStyle := [declarative, scripted, unknown]

def name : PipelineStyle → Text
  | declarative => "declarative"
  | scripted => "scripted"
  | unknown => "unknown"
  | other name => name

def ofName (s : Text) : PipelineStyle := (known.find? (·.name == s)).getD (other s)

end PipelineStyle

structure FeatureSet where
  parameters : List Parameter := []
  environment : List (Text × Text) := []
  matrix : List (Text × List Text) := []
  timeoutMinutes : Int := 0
  retryCount : Int := 0
  postActions : List (PostPhase × List PostAction) := []
  retention : Retention := {}
  credentialBindings : List CredentialBinding := []
  guards : List Guard := []
  parallelStages : List Text := []
  stageNames : List Text := []
  libraries : List Text := []
  style : PipelineStyle := .unknown
deriving DecidableEq

namespace FeatureSet

def environmentMap (f : FeatureSet) : List (Text × Text) := Keyed.ofPairs f.environment
def matrixAxes (f : FeatureSet) : List (Text × List Text) := Keyed.ofPairs f.matrix
def postActionMap (f : FeatureSet) : List (PostPhase × List PostAction) :=
  Keyed.ofPairs f.postActions

end FeatureSet
end PipelineMigration
