import PipelineMigration.Configuration.Section
import PipelineMigration.Configuration.Variable
import PipelineMigration.Job.Layout
set_option autoImplicit false

/- The whole configuration: sections and jobs, a blank line between each two. -/
namespace PipelineMigration.Configuration

/-- When a result needs a second look. -/
structure ReviewPolicy where
  /-- Less trust than this calls for review. -/
  threshold : Float := 0.7
  /-- The classifier of variables whose type is unclear. -/
  generic : Text := Classifier.generic.name

/-- The sections before the jobs. -/
def sections (policy : ReviewPolicy) (c : JobContext) (specs : List VariableSpec)
    (tier : ComplexityTier) (limits : Limits) (stamp : Text) : List (List Text) :=
  [heading c.features.style tier (Capability.score c.verdicts) stamp,
    includeSection c.verdicts,
    workflowSection c.features.parameters,
    stageSection c.stages,
    variableSection (variableEntries c.features specs c.tool policy.generic),
    defaultSection c.tool limits c.features.retention,
    advisories c.features c.verdicts policy.threshold
      ((Job.capabilityJobs c policy.threshold).map (·.1))]

/-- The lines of each section and job, those without any left out. -/
def blocks (policy : ReviewPolicy) (c : JobContext) (specs : List VariableSpec)
    (tier : ComplexityTier) (limits : Limits) (stamp : Text) : List (List Text) :=
  (sections policy c specs tier limits stamp).filter (fun lines => !lines.isEmpty) ++
    (Job.jobs c policy.threshold).map Job.layout

def document (blocks : List (List Text)) : Text :=
  Text.join "\n\n" (blocks.map (Text.join "\n")) ++ "\n"

/-- The configuration for what a script says, the verdicts on its capabilities and the variables
    planned for its credentials. -/
def synthesize (policy : ReviewPolicy) (features : FeatureSet) (verdicts : List Verdict)
    (specs : List VariableSpec) (tier : ComplexityTier) (stamp : Text) :
    Except Number.IntegerError Text := do
  let limits ← Limits.of features
  let c := JobContext.of features verdicts tier limits.expiry
  pure (document (blocks policy c specs tier limits stamp))

end PipelineMigration.Configuration
