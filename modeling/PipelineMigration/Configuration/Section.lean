import PipelineMigration.Capability.Readiness
import PipelineMigration.Feature.Basic
import PipelineMigration.Job.Capability
import PipelineMigration.Number.Integer
import PipelineMigration.Text.Quotation
set_option autoImplicit false

/- The sections of a configuration other than variables and jobs, each as its lines; a section
   without lines is left out. Limits of a script are written with them, which fails only for a
   number that is too long to write. -/
namespace PipelineMigration.Configuration

/-- More automatic retries the target does not make. -/
def maxRetry : Int := 2

structure Limits where
  timeout : Option Text
  retry : Option Text
  /-- The count the script asked for, where it is more than the target grants. -/
  excessRetry : Option Text
  /-- How long artifacts are kept. -/
  expiry : Option Text
deriving DecidableEq

/-- A number that is written only where a condition holds. -/
def writeIf (wanted : Bool) (n : Int) : Except Number.IntegerError (Option Text) :=
  if wanted then (Number.writeInteger n).map some else .ok none

/-- The days that artifacts are kept, else the days that builds are. -/
def daysKept (r : Retention) : Int :=
  if r.artifactDaysToKeep == 0 then r.daysToKeep else r.artifactDaysToKeep

def dayUnit (days : Int) : Text := if days == 1 then " day" else " days"

def Limits.of (f : FeatureSet) : Except Number.IntegerError Limits := do
  let days := daysKept f.retention
  let timeout ← writeIf (f.timeoutMinutes != 0) f.timeoutMinutes
  let excessRetry ← writeIf (maxRetry < f.retryCount) f.retryCount
  let retry ← writeIf (f.retryCount != 0) (min f.retryCount maxRetry)
  let expiry ← writeIf (days != 0) days
  pure { timeout, retry, excessRetry, expiry := expiry.map (· ++ dayUnit days) }

/-- Comments that tell where the configuration comes from. -/
def heading (style : PipelineStyle) (tier : ComplexityTier) (score : Nat) (stamp : Text) :
    List Text :=
  ["# GitLab CI/CD configuration converted from a Jenkins pipeline",
    "# Source style: " ++ style.name,
    "# Complexity tier: " ++ tier.name,
    "# Readiness score: " ++ Text.ofNat score ++ "/100",
    "# Generated on: " ++ stamp,
    "# Comments tagged REVIEW need manual attention before the first run."]

def listItem (s : Text) : Text := "  - ".toList ++ s

/-- The templates that the capabilities need, each once, by name. -/
def templates (verdicts : List Verdict) : List Text :=
  (Keyed.distinct (verdicts.filterMap fun v => said v.include_)).mergeSort Text.notAfter

def includeSection (verdicts : List Verdict) : List Text :=
  match templates verdicts with
  | [] => []
  | refs => "include:".toList :: refs.map listItem

/-- What may start a pipeline that takes parameters. -/
def pipelineSources : List Text := ["web", "api", "schedule", "push", "merge_request_event"]

def sourceRule (source : Text) : Text :=
  "    - if: " ++ Yaml.singleQuote ("$CI_PIPELINE_SOURCE == \"" ++ source ++ "\"")

def workflowSection (parameters : List Parameter) : List Text :=
  if parameters.isEmpty then []
  else ["workflow:".toList, "  rules:"] ++ pipelineSources.map sourceRule

def stageSection (stages : List Text) : List Text := "stages:".toList :: stages.map listItem

def cacheLines (paths : List Text) : List Text :=
  if paths.isEmpty then []
  else
    ["  cache:".toList, "    key: " ++ Text.Shell.expansion "CI_COMMIT_REF_SLUG",
      "    paths:"] ++ paths.map fun path => "      - ".toList ++ path

def excessRetryLine (count : Text) : Text :=
  "  # " ++ Job.review ("Jenkins retried " ++ count ++
    " times; GitLab allows at most 2 automatic retries.")

def limitLines (limits : Limits) : List Text :=
  (limits.timeout.map fun t => "  timeout: ".toList ++ t ++ ['m']).toList ++
    (limits.excessRetry.map excessRetryLine).toList ++
    (limits.retry.map fun t => "  retry: ".toList ++ t).toList ++
    match limits.expiry with
    | some expiry => ["  artifacts:", "    expire_in: " ++ expiry]
    | none => []

def pinningLine : Text :=
  "  # " ++ Job.review ("Images are pinned by tag; pin them by digest (image@sha256:...) " ++
    "for hardened runners.")

def keptBuildsLine : Text :=
  "  # Jenkins kept a fixed number of builds; GitLab retention is time based " ++
    "(Settings > CI/CD > Artifacts)."

def defaultSection (tool : BuildTool) (limits : Limits) (r : Retention) : List Text :=
  ["default:".toList, pinningLine, "  image: ".toList ++ tool.image] ++
    cacheLines tool.cachePaths ++
    limitLines limits ++
    if r.numToKeep == 0 && r.artifactNumToKeep == 0 then [] else [keptBuildsLine]

/-- Capabilities that the default section, the core jobs or a template take care of. -/
def absorbed : List Text :=
  ["maven-invoker", "gradle", "nodejs", "python", "dotnet", "junit", "archive-artifacts",
    "build-timeout", "retry", "credentials-binding", "ws-cleanup", "lockable-resources",
    "pipeline-input-step", "cobertura", "jacoco", "stash"]

def commentLine (remark : Text) : Text := "# ".toList ++ remark

def libraryRemark (library : Text) : Text :=
  Job.review ("Shared library '" ++ library ++
    "' must be ported to an included template (include: project).")

def guardRemark (g : Guard) : Text :=
  let stage : Text := if g.stage.isEmpty then "unknown" else g.stage
  Job.review <| "Condition on stage '" ++ stage ++ "' (" ++
    Text.trim (g.condition.name ++ ' ' :: g.expression) ++ ") needs rules: on the matching job."

/-- Whether a verdict is explained here: no job stands for it, and it is not taken care of
    without doubt. -/
def isAdvised (threshold : Float) (inJobs : List Text) (v : Verdict) : Bool :=
  !inJobs.contains v.id && !(absorbed.contains v.id && threshold ≤ v.confidence)

/-- Libraries, capabilities and conditions that someone has to see to. -/
def advisories (f : FeatureSet) (verdicts : List Verdict) (threshold : Float)
    (inJobs : List Text) : List Text :=
  f.libraries.map (fun library => commentLine (libraryRemark library)) ++
    (verdicts.filter (isAdvised threshold inJobs)).flatMap (fun v =>
      (Job.verdictComments threshold v).map commentLine) ++
    (f.guards.filter fun g => !Job.isDeployStage g.stage).map fun g => commentLine (guardRemark g)

end PipelineMigration.Configuration
