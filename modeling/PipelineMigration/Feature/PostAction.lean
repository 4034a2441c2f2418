import PipelineMigration.Feature.Basic
import PipelineMigration.Script.Bracket
set_option autoImplicit false

/- Actions after a run, by the outcome that triggers them, in the order of the script. -/
namespace PipelineMigration.Feature

def postSteps : List (Pattern × PostAction) :=
  [(.edge ++ "slackSend" ++ .edge, .slackNotification),
    (.edge ++ .anyOf ["emailext", "mail"] ++ .blanks ++ "(", .emailNotification),
    (.edge ++ .anyOf ["cleanWs", "deleteDir"] ++ .blanks ++ "(", .cleanupWorkspace),
    (.edge ++ "archiveArtifacts" ++ .edge, .archiveArtifacts),
    (.edge ++ "junit" ++ .edge, .junitReport)]

def actionsIn (body : Text) : List PostAction :=
  postSteps.filterMap fun (step, action) => if step.occursIn body then some action else none

/-- The phase blocks of a block of post actions, in the order of the script. -/
def phaseBlocks (body : Text) : List (PostPhase × Script.Block) :=
  let found := PostPhase.known.flatMap fun phase =>
    (Script.blocks phase.name body).map fun b => (phase, b)
  found.mergeSort fun a b => a.2.offset ≤ b.2.offset

/-- Adds the actions of a phase that it does not have yet. -/
def addActions (phases : List (PostPhase × List PostAction)) (phase : PostPhase)
    (actions : List PostAction) : List (PostPhase × List PostAction) :=
  let held := (Keyed.get? phase phases).getD []
  Keyed.put phase (held ++ actions.filter fun a => !held.contains a) phases

def postActions (s : Text) : List (PostPhase × List PostAction) :=
  ((Script.blocks "post" s).flatMap fun b => phaseBlocks b.body).foldl
    (fun phases (phase, b) =>
      let actions := actionsIn b.body
      if actions.isEmpty then phases else addActions phases phase actions) []

end PipelineMigration.Feature
