import PipelineMigration.Capability.Readiness
import PipelineMigration.Feature.Basic
import PipelineMigration.Job.Basic
import PipelineMigration.Job.BuildTool
set_option autoImplicit false

/- What jobs are made from, and the stages of the target pipeline in the order in which they run. -/
namespace PipelineMigration
namespace Job

def baseStages : ComplexityTier → List Text
  | .medium => ["build", "test", "quality"]
  | .complex => ["prepare", "build", "test", "quality"]
  | _ => ["build", "test"]

def selectStages (tier : ComplexityTier) (verdicts : List Verdict) : List Text :=
  baseStages tier ++
    (if verdicts.any fun v => v.id == "docker-workflow".toList then ["package".toList] else []) ++
    (if tier == .simple then [] else ["deploy".toList]) ++
    if tier == .complex then ["cleanup".toList] else []

/-- The first preferred stage that there is, else the last of all. -/
def stageFor (stages preferred : List Text) : Text :=
  match preferred.find? fun s => stages.contains s with
  | some s => s
  | none => stages.getLast?.getD []

/-- The stage after all others, which needs no declaration. -/
def postStage : Text := ".post"

end Job

structure JobContext where
  features : FeatureSet
  verdicts : List Verdict
  stages : List Text
  tool : BuildTool
  /-- How long artifacts are kept, where the script says so. -/
  expiry : Option Text

namespace JobContext

def of (features : FeatureSet) (verdicts : List Verdict) (tier : ComplexityTier)
    (expiry : Option Text) : JobContext :=
  { features, verdicts, stages := Job.selectStages tier verdicts, tool := BuildTool.of verdicts
    expiry }

def has (c : JobContext) (id : String) : Bool := c.verdicts.any fun v => v.id == id.toList

def stageFor (c : JobContext) (preferred : List Text) : Text := Job.stageFor c.stages preferred

def hasStage (c : JobContext) (stage : String) : Bool := c.stages.contains stage.toList

def hasAction (c : JobContext) (action : PostAction) : Bool :=
  c.features.postActions.any fun (_, actions) => actions.contains action

end JobContext
end PipelineMigration
