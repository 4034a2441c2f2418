import PipelineMigration.Feature.Basic
import PipelineMigration.Job.Basic
import PipelineMigration.Text.LetterCase
set_option autoImplicit false

/- Rules that take the place of guards. A guard on a branch, a tag, a change request or a variable
   has a rule of its own; any other has none. -/
namespace PipelineMigration.Job

/-- Characters with a meaning of their own in a regular expression. -/
def regexSpecials : Text := "()[]\x7b\x7d?*+-|^$\\.&~# \t\n\r\x0b\x0c"

/-- A character of a glob as a regular expression between slashes. -/
def globChar (c : Char) : Text :=
  if c == '*' then ".*" else if c == '?' then "." else if c == '/' then "\\/"
  else if regexSpecials.contains c then ['\\', c] else [c]

def globRegex (glob : Text) : Text := glob.flatMap globChar

def isGlob (s : Text) : Bool := s.any fun c => c == '*' || c == '?'

def branchRule (branch : Text) : Text :=
  if isGlob branch then "$CI_COMMIT_BRANCH =~ /^" ++ globRegex branch ++ "$/"
  else "$CI_COMMIT_BRANCH == \"" ++ branch ++ "\""

def variableRule (expression : Text) : Text :=
  let (name, value) := (Text.splitOnce " == " expression).getD (expression, [])
  '$' :: name ++ " == \"".toList ++ value ++ ['"']

/-- The condition that takes the place of a guard, where there is one. -/
def guardRule (g : Guard) : Option Text :=
  match g.condition with
  | .branch => some (branchRule g.expression)
  | .tag => some "$CI_COMMIT_TAG"
  | .buildingTag => some "$CI_COMMIT_TAG"
  | .changeRequest => some "$CI_PIPELINE_SOURCE == \"merge_request_event\""
  | .environment => some (variableRule g.expression)
  | _ => none

/-- Whether a stage deploys, by its name. -/
def isDeployStage (stage : Text) : Bool :=
  let s := stage.lower
  Text.hasPart s "deploy" || Text.hasPart s "release"

end PipelineMigration.Job
