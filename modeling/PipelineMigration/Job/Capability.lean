import PipelineMigration.Job.Context
import PipelineMigration.Job.Core
import PipelineMigration.Keyed
import PipelineMigration.Number.Decimal
set_option autoImplicit false

/- Jobs that report the outcome of a run or clean up after it. -/
namespace PipelineMigration.Job

def curlImage : JobImage := { name := "curlimages/curl:8.5.0" }

/-- A call of the chat hook with what happened to the pipeline. -/
def hookCall (outcome : Text) : Text :=
  "curl -X POST -H \"Content-Type: application/json\" --data \"\x7b\\\"text\\\": \\\"Pipeline " ++
    "$CI_PIPELINE_ID " ++ outcome ++ "\\\"\x7d\" \"$SLACK_WEBHOOK_URL\""

/-- When a job runs that takes the place of a phase. -/
def phaseWhen : PostPhase → Text
  | .success => "on_success"
  | .fixed => "on_success"
  | .failure => "on_failure"
  | .unstable => "on_failure"
  | .regression => "on_failure"
  | _ => "always"

/-- Phases that no setting of the target matches. -/
def isInexact (phase : PostPhase) : Bool :=
  phase == .changed || phase == .aborted || phase == .cleanup

def emailNote (phase : Text) : Text :=
  "echo \"Email notification for " ++ phase ++ " handled by Pipeline status emails\""

def notifyJob? (phase : PostPhase) (actions : List PostAction) : Option Job :=
  let slack := actions.contains .slackNotification
  let email := actions.contains .emailNotification
  if !slack && !email then none
  else some {
    name := "notify:" ++ phase.name, stage := postStage, image := some curlImage
    when_ := some (phaseWhen phase)
    script := (if slack then [hookCall phase.name] else []) ++
      if email then [emailNote phase.name] else []
    comments :=
      (if slack then ["Define SLACK_WEBHOOK_URL as a masked CI/CD variable.".toList] else []) ++
      (if email then ["Enable Settings > Integrations > Pipeline status emails.".toList] else []) ++
      if isInexact phase then [review ("Jenkins post phase '".toList ++ phase.name ++
        "' has no exact GitLab equivalent.".toList)] else [] }

def cleanupJobs (c : JobContext) : List Job :=
  if c.hasStage "cleanup" || c.hasAction .cleanupWorkspace then
    [{ name := "cleanup:workspace"
       stage := if c.hasStage "cleanup" then "cleanup" else postStage
       assignments := [("GIT_STRATEGY", "none")]
       script := ["echo \"Jobs start from a clean checkout; release external resources here\""]
       when_ := some "always" }]
  else []

def postJobs (c : JobContext) : List Job :=
  c.features.postActions.filterMap (fun (phase, actions) => notifyJob? phase actions) ++
    cleanupJobs c

/- Jobs that take the place of capabilities, and the comments that explain a verdict. -/

/-- An image whose entry point would keep a script from running. -/
def bare (name : Text) : Option JobImage := some { name, clearEntry := true }

def dockerJob (c : JobContext) : Job :=
  { name := "package:docker", stage := c.stageFor ["package", "build"]
    image := some { name := "docker:24.0.7" }, services := ["docker:24.0.7-dind"]
    assignments := [("DOCKER_TLS_CERTDIR", "/certs")]
    beforeScript := ["echo \"$CI_REGISTRY_PASSWORD\" | docker login -u \"$CI_REGISTRY_USER\" " ++
      "--password-stdin \"$CI_REGISTRY\""]
    script := ["docker build -t \"$CI_REGISTRY_IMAGE:$CI_COMMIT_SHORT_SHA\" .",
      "docker push \"$CI_REGISTRY_IMAGE:$CI_COMMIT_SHORT_SHA\""]
    needs := some [buildName] }

def sonarJob (c : JobContext) : Job :=
  { name := "quality:sonar", stage := c.stageFor ["quality", "test"]
    image := bare "sonarsource/sonar-scanner-cli:5.0"
    assignments := [("SONAR_USER_HOME", "$\x7bCI_PROJECT_DIR\x7d/.sonar"), ("GIT_DEPTH", "0")]
    script := ["sonar-scanner -Dsonar.host.url=\"$SONAR_HOST_URL\" -Dsonar.token=\"$SONAR_TOKEN\""]
    needs := some [buildName], allowFailure := true
    comments := ["Define SONAR_HOST_URL and SONAR_TOKEN as CI/CD variables."] }

def kubernetesJob (c : JobContext) : Job :=
  { name := "deploy:kubernetes", stage := c.stageFor ["deploy", "test"]
    image := bare "bitnami/kubectl:1.29", script := ["kubectl apply -f k8s/"]
    needs := some [buildName], environment := some "staging", when_ := some "manual"
    comments :=
      ["Provide KUBECONFIG as a file variable or connect the GitLab agent for Kubernetes."] }

def terraformJob (c : JobContext) : Job :=
  { name := "terraform:plan", stage := c.stageFor ["build"]
    image := bare "hashicorp/terraform:1.7"
    script := ["terraform init -input=false", "terraform plan -input=false -out=plan.tfplan"]
    artifacts := ["paths:", "  - plan.tfplan"] }

def ansibleJob (c : JobContext) : Job :=
  { name := "deploy:ansible", stage := c.stageFor ["deploy", "test"]
    image := some { name := "python:3.12-slim" }, beforeScript := ["pip install ansible"]
    script := ["ansible-playbook -i inventory playbook.yml"], when_ := some "manual"
    comments := ["Provide the inventory and SSH key as file variables."] }

def awsName : Text := "deploy:aws"

def awsJob (c : JobContext) : Job :=
  { name := awsName, stage := c.stageFor ["deploy", "test"]
    image := bare "amazon/aws-cli:2.15.0"
    script := ["aws s3 cp dist/ \"s3://$S3_BUCKET/\" --recursive"], when_ := some "manual"
    comments :=
      ["Authenticate with ID tokens or AWS_ACCESS_KEY_ID/AWS_SECRET_ACCESS_KEY variables."] }

def downstreamJob (c : JobContext) : Job :=
  { name := "trigger:downstream", stage := c.stageFor ["deploy", "test"]
    trigger := some "group/downstream-project"
    comments := [review "Replace the downstream project path with the Jenkins job target."] }

def cypressJob (c : JobContext) : Job :=
  { name := "test:e2e", stage := c.stageFor ["test"]
    image := bare "cypress/included:13.6.4", script := ["npm ci", "npx cypress run"]
    needs := some [buildName]
    artifacts := ["when: always", "paths:", "  - cypress/screenshots/", "  - cypress/videos/"] }

def hookJob (v : Verdict) : Job :=
  { name := "notify:" ++ v.id, stage := postStage, image := some curlImage
    script := [hookCall "finished"], when_ := some "always"
    comments := [(said v.alternative).getD v.note] }

/-- Makes the job of a capability, given the names taken so far. It may decline. -/
abbrev Stub := JobContext → List Text → Verdict → Option Job

def awsStub : Stub := fun c taken _ => if taken.contains awsName then none else some (awsJob c)

/-- The hook job, unless actions after a run report already. -/
def hookStub : Stub := fun c _ v =>
  if c.features.postActions.isEmpty then some (hookJob v) else none

def stubs : List (Text × Stub) :=
  [("docker-workflow", fun c _ _ => some (dockerJob c)),
    ("sonarqube", fun c _ _ => some (sonarJob c)),
    ("kubernetes-cd", fun c _ _ => some (kubernetesJob c)),
    ("terraform", fun c _ _ => some (terraformJob c)),
    ("ansible", fun c _ _ => some (ansibleJob c)),
    ("pipeline-aws", awsStub),
    ("s3", awsStub),
    ("pipeline-build-step", fun c _ _ => some (downstreamJob c)),
    ("cypress", fun c _ _ => some (cypressJob c)),
    ("slack", hookStub)]

/-- What a verdict says, with a call for review before it when trust is below the threshold. -/
def verdictComments (threshold : Float) (v : Verdict) : List Text :=
  let target := (said v.equivalent).getD ((said v.alternative).getD "no direct equivalent".toList)
  (if v.confidence < threshold then
    [review (v.id ++ " resolved with confidence ".toList ++ Number.fixed 2 v.confidence ++
      "; verify the converted behaviour.".toList)] else []) ++
  [v.id ++ " (".toList ++ v.tier.name ++ "): ".toList ++ target ++ ". ".toList ++ v.note]

/-- Capability jobs in the order of verdicts, each with the verdict it stands for. -/
def capabilityJobsFrom (c : JobContext) (threshold : Float) (taken : List Text) :
    List Verdict → List (Text × Job)
  | [] => []
  | v :: rest =>
    match (Keyed.get? v.id stubs).bind fun stub => stub c taken v with
    | none => capabilityJobsFrom c threshold taken rest
    | some job =>
      (v.id, { job with comments := verdictComments threshold v ++ job.comments }) ::
        capabilityJobsFrom c threshold (job.name :: taken) rest

/-- Jobs that do not depend on single capabilities. -/
def coreJobs (c : JobContext) : List Job :=
  buildJob c :: testJob c :: matrixJobs c ++ parallelJobs c ++
    (if c.hasStage "deploy" then [deployJob c] else []) ++ postJobs c

def capabilityJobs (c : JobContext) (threshold : Float) : List (Text × Job) :=
  capabilityJobsFrom c threshold ((coreJobs c).map (·.name)) c.verdicts

/-- All jobs of the target pipeline. -/
def jobs (c : JobContext) (threshold : Float) : List Job :=
  coreJobs c ++ (capabilityJobs c threshold).map (·.2)

end PipelineMigration.Job
