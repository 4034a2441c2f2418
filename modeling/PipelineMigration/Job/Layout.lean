import PipelineMigration.Job.Basic
import PipelineMigration.Yaml.Quote
set_option autoImplicit false

/- The lines of a job in the configuration, its comments before it. -/
namespace PipelineMigration.Job

def imageLines : Option JobImage → List Text
  | none => []
  | some i =>
    if i.clearEntry then ["  image:", "    name: " ++ i.name, "    entrypoint: [\"\"]"]
    else ["  image: " ++ i.name]

/-- A section with a line for every item, left out when there is none. -/
def itemSection (title : Text) (line : Text → Text) (items : List Text) : List Text :=
  if items.isEmpty then [] else title :: items.map line

def variableLines (assignments : List (Text × Text)) : List Text :=
  if assignments.isEmpty then []
  else "  variables:".toList :: assignments.map fun (key, value) =>
    "    ".toList ++ key ++ ": ".toList ++ Yaml.quote value

def matrixLine (first : Bool) (axis : Text × List Text) : Text :=
  (if first then "      - ".toList else "        ".toList) ++ axis.1 ++ ": ".toList ++
    Yaml.quotedList axis.2

def matrixLines : List (Text × List Text) → List Text
  | [] => []
  | first :: rest =>
    "  parallel:".toList :: "    matrix:".toList :: matrixLine true first ::
      rest.map (matrixLine false)

def commandLine (command : Text) : Text := "    - ".toList ++ Yaml.quote command

def actionLines (j : Job) : List Text :=
  match j.trigger with
  | some project => ["  trigger:", "    project: " ++ project, "    strategy: depend"]
  | none =>
    itemSection "  before_script:" commandLine j.beforeScript ++
      "  script:".toList ::
        (if j.script.isEmpty then ["echo \"No steps\"".toList] else j.script).map commandLine

def ruleLines (r : JobRule) : List Text :=
  ("    - if: ".toList ++ Yaml.singleQuote r.condition) ::
    (r.when_.map fun w => "      when: ".toList ++ w).toList

def occasionLines (j : Job) : List Text :=
  if j.rules.isEmpty then (j.when_.map fun w => "  when: ".toList ++ w).toList
  else "  rules:".toList :: j.rules.flatMap ruleLines

def settingLine (label : String) (value : Option Text) : List Text :=
  (value.map fun s => "  ".toList ++ label.toList ++ ": ".toList ++ s).toList

/-- Every line of the job, comments included. -/
def layout (j : Job) : List Text :=
  j.comments.map ("# ".toList ++ ·) ++
    [Yaml.quote j.name ++ ":".toList, "  stage: ".toList ++ j.stage] ++
    imageLines j.image ++
    itemSection "  services:" ("    - ".toList ++ ·) j.services ++
    variableLines j.assignments ++
    (j.needs.map fun ns => "  needs: ".toList ++ Yaml.quotedList ns).toList ++
    matrixLines j.matrix ++
    actionLines j ++
    settingLine "environment" j.environment ++
    settingLine "resource_group" j.resourceGroup ++
    itemSection "  artifacts:" ("    ".toList ++ ·) j.artifacts ++
    occasionLines j ++
    if j.allowFailure then ["  allow_failure: true".toList] else []

end PipelineMigration.Job
