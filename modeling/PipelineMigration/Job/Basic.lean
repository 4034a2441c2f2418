import PipelineMigration.Text.Basic
set_option autoImplicit false

/- Jobs of the target pipeline. -/
namespace PipelineMigration

structure JobImage where
  name : Text
  /-- Whether the image's own entry point is switched off. -/
  clearEntry : Bool := false
deriving DecidableEq

/-- A rule under which a job runs, and how, when that is said. -/
structure JobRule where
  condition : Text
  when_ : Option Text := none
deriving DecidableEq

structure Job where
  name : Text
  stage : Text
  script : List Text := []
  image : Option JobImage := none
  services : List Text := []
  assignments : List (Text × Text) := []
  beforeScript : List Text := []
  needs : Option (List Text) := none
  rules : List JobRule := []
  when_ : Option Text := none
  environment : Option Text := none
  resourceGroup : Option Text := none
  /-- Axes, each with its values; the job runs once for every choice of values. -/
  matrix : List (Text × List Text) := []
  /-- Lines of the artifacts section. -/
  artifacts : List Text := []
  trigger : Option Text := none
  allowFailure : Bool := false
  comments : List Text := []
deriving DecidableEq

namespace Job

/-- The mark of what a person has to look at. -/
def reviewMarker : Text := "[REVIEW]"

def review (s : Text) : Text := reviewMarker ++ ' ' :: s

/-- Whether the job does something: it runs a script or triggers a pipeline. -/
def acts (j : Job) : Bool := j.trigger.isSome || !j.script.isEmpty

end Job
end PipelineMigration
