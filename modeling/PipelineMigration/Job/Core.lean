import PipelineMigration.Job.Context
import PipelineMigration.Job.Naming
import PipelineMigration.Job.Rule
import PipelineMigration.Yaml.Quote
set_option autoImplicit false

/- Jobs that every pipeline has, and those that its own stages, axes and guards call for. -/
namespace PipelineMigration.Job

def buildName : Text := "build:app"

def indentedPath (path : Text) : Text := "  - ".toList ++ path

def buildArtifacts (c : JobContext) : List Text :=
  let paths := if c.tool.artifactPaths.isEmpty && c.has "archive-artifacts" then ["build/".toList]
    else c.tool.artifactPaths
  if paths.isEmpty then []
  else "paths:".toList :: paths.map indentedPath ++
    ["expire_in: ".toList ++ c.expiry.getD "1 week".toList]

def buildJob (c : JobContext) : Job :=
  { name := buildName, stage := "build", script := c.tool.build
    artifacts := buildArtifacts c
    comments := if c.tool = .generic
      then [review "No build tool detected; port the build steps."] else [] }

def coverageReport : List Text :=
  ["  coverage_report:", "    coverage_format: cobertura",
    "    path: \"coverage/cobertura-coverage.xml\""]

def testReports (c : JobContext) : List Text :=
  (if c.has "junit" || c.hasAction .junitReport
    then ["  junit: ".toList ++ Yaml.quote c.tool.junitPath] else []) ++
  if c.has "cobertura" || c.has "jacoco" then coverageReport else []

def testJob (c : JobContext) : Job :=
  let reports := testReports c
  { name := "test:unit", stage := "test", script := c.tool.test, needs := some [buildName]
    artifacts := if reports.isEmpty then []
      else "when: always".toList :: "reports:".toList :: reports
    comments := if c.has "jacoco"
      then [review "Convert the JaCoCo report to Cobertura XML."] else [] }

/-- One job for all cells of the matrix. -/
def matrixJobs (c : JobContext) : List Job :=
  match c.features.matrix with
  | [] => []
  | (first, _) :: _ =>
    let axis := variableName first
    [{ name := "test:matrix", stage := "test"
       script := ("echo \"Running matrix cell " ++ axis ++ "=$" ++ axis ++ "\"") :: c.tool.test
       needs := some [buildName]
       matrix := c.features.matrix.map fun (name, values) => (variableName name, values) }]

def parallelJob (slug stage : Text) : Job :=
  { name := "parallel:" ++ slug, stage := "test"
    script := ["echo \"Port the steps of parallel stage " ++ stage ++ "\""]
    needs := some [buildName] }

def parallelJobs (c : JobContext) : List Job :=
  (slugsFrom [] c.features.parallelStages).zipWith parallelJob c.features.parallelStages

def manual? (c : JobContext) : Option Text :=
  if c.has "pipeline-input-step" then some "manual" else none

def deployGuards (c : JobContext) : List Guard :=
  c.features.guards.filter fun g => isDeployStage g.stage

def deployRules (c : JobContext) : List JobRule :=
  let rules := (deployGuards c).filterMap fun g => (guardRule g).map fun r => ⟨r, manual? c⟩
  if rules.isEmpty then [⟨"$CI_COMMIT_BRANCH == $CI_DEFAULT_BRANCH", manual? c⟩] else rules

def deployJob (c : JobContext) : Job :=
  { name := "deploy:staging", stage := "deploy"
    script := ["echo \"Port the Jenkins deployment steps here\""]
    needs := some [buildName], environment := some "staging"
    resourceGroup := if c.has "lockable-resources" then some "deploy" else none
    rules := deployRules c
    comments := ((deployGuards c).filter fun g => (guardRule g).isNone).map fun g =>
      review ("Jenkins expression guard not translated: ".toList ++ g.expression) }

end PipelineMigration.Job
