import PipelineMigration.Capability.Basic
import PipelineMigration.Keyed
set_option autoImplicit false

/- What is known of capabilities: other names for them, and how the target covers each. -/
namespace PipelineMigration.Capability

/-- Steps, in small letters, with the capability that they use. -/
def stepAliases : List (Text × Text) :=
  [("withdockerregistry", "docker-workflow"), ("withdockerserver", "docker-workflow"),
    ("withcredentials", "credentials-binding"), ("usernamepassword", "credentials-binding"),
    ("publishtestresults", "junit"), ("archiveartifacts", "archive-artifacts"),
    ("slacksend", "slack"), ("emailext", "email-ext"), ("mail", "email-ext"),
    ("cleanws", "ws-cleanup"), ("deletedir", "ws-cleanup"), ("withmaven", "maven-invoker"),
    ("mvn", "maven-invoker"), ("withgradle", "gradle"), ("withsonarqubeenv", "sonarqube"),
    ("timeout", "build-timeout"), ("withvault", "hashicorp-vault"),
    ("withkubeconfig", "kubernetes-cd"), ("withaws", "pipeline-aws"), ("sshagent", "ssh-agent"),
    ("@library", "shared-library"), ("library", "shared-library"), ("lock", "lockable-resources")]

/-- Other names of capabilities. -/
def nameAliases : List (Text × Text) :=
  [("docker", "docker-workflow"), ("docker-build-step", "docker-workflow"),
    ("docker-build", "docker-workflow"), ("docker-pipeline", "docker-workflow"),
    ("credentials", "credentials-binding"), ("testresults", "junit"),
    ("artifacts", "archive-artifacts"), ("maven", "maven-invoker"), ("sonar", "sonarqube"),
    ("vault", "hashicorp-vault"), ("kubernetes-cli", "kubernetes-cd"), ("node-js", "nodejs"),
    ("nodejs-plugin", "nodejs")]

def aliases : List (Text × Text) := stepAliases ++ nameAliases

def docs (path : String) : Text := "https://docs.gitlab.com/ee" ++ path

def nativeEntries : List (Text × CompatibilityEntry) :=
  [("credentials-binding", {
      tier := .native
      note := "Store secrets as masked, protected CI/CD variables."
      equivalent := some "CI/CD variables"
      documentation := some (docs "/ci/variables/") }),
    ("docker-workflow", {
      tier := .native
      note := "Build and push images from a job using the Docker-in-Docker service."
      equivalent := some "Docker executor with docker:dind service"
      documentation := some (docs "/ci/docker/using_docker_build.html") }),
    ("junit", {
      tier := .native
      note := "Publish JUnit XML with artifacts:reports:junit."
      equivalent := some "artifacts:reports:junit"
      documentation := some (docs "/ci/testing/unit_test_reports.html") }),
    ("archive-artifacts", {
      tier := .native
      note := "Declare artifacts:paths on the producing job."
      equivalent := some "artifacts:paths"
      documentation := some (docs "/ci/jobs/job_artifacts.html") }),
    ("stash", {
      tier := .native
      note := "Pass files between jobs as artifacts instead of stash/unstash."
      equivalent := some "artifacts with needs/dependencies"
      documentation := some (docs "/ci/jobs/job_artifacts.html") }),
    ("build-timeout", {
      tier := .native
      note := "Use the job or default timeout keyword."
      equivalent := some "timeout"
      documentation := some (docs "/ci/yaml/#timeout") }),
    ("retry", {
      tier := .native
      note := "Use the retry keyword (maximum of 2 automatic retries)."
      equivalent := some "retry"
      documentation := some (docs "/ci/yaml/#retry") }),
    ("ws-cleanup", {
      tier := .native
      note := "Jobs start from a clean checkout; adjust GIT_STRATEGY or GIT_CLEAN_FLAGS if needed."
      equivalent := some "Fresh clone per job"
      documentation := some (docs "/ci/runners/configure_runners.html") }),
    ("pipeline-input-step", {
      tier := .native
      note := "Replace interactive input with a manual job."
      equivalent := some "when: manual"
      documentation := some (docs "/ci/jobs/job_control.html") }),
    ("pipeline-build-step", {
      tier := .native
      note := "Replace downstream builds with trigger jobs."
      equivalent := some "trigger"
      documentation := some (docs "/ci/pipelines/downstream_pipelines.html") }),
    ("lockable-resources", {
      tier := .native
      note := "Serialize jobs with resource_group."
      equivalent := some "resource_group"
      documentation := some (docs "/ci/resource_groups/") }),
    ("maven-invoker", {
      tier := .native
      note := "Run Maven inside a maven image with a cached local repository."
      equivalent := some "maven image"
      documentation := some (docs "/ci/caching/") }),
    ("gradle", {
      tier := .native
      note := "Run Gradle inside a gradle image with cached .gradle directories."
      equivalent := some "gradle image"
      documentation := some (docs "/ci/caching/") }),
    ("nodejs", {
      tier := .native
      note := "Run Node.js tooling inside a node image with cached node_modules."
      equivalent := some "node image"
      documentation := some (docs "/ci/caching/") }),
    ("python", {
      tier := .native
      note := "Run Python tooling inside a python image with a cached pip directory."
      equivalent := some "python image"
      documentation := some (docs "/ci/caching/") }),
    ("dotnet", {
      tier := .native
      note := "Run dotnet inside the .NET SDK image."
      equivalent := some "dotnet sdk image" }),
    ("cobertura", {
      tier := .native
      note := "Publish Cobertura XML as a coverage report artifact."
      equivalent := some "artifacts:reports:coverage_report"
      documentation := some (docs "/ci/testing/test_coverage_visualization.html") })]

def templatedEntries : List (Text × CompatibilityEntry) :=
  [("jacoco", {
      tier := .templated
      note := "Convert JaCoCo XML to Cobertura format before publishing."
      equivalent := some "artifacts:reports:coverage_report"
      documentation := some (docs "/ci/testing/test_coverage_visualization.html") }),
    ("sonarqube", {
      tier := .templated
      note := "Run the SonarQube scanner in a job; SONAR_HOST_URL and SONAR_TOKEN become variables."
      equivalent := some "sonar-scanner job"
      include_ := some "template: Jobs/Code-Quality.gitlab-ci.yml"
      documentation := some (docs "/ci/testing/code_quality.html") }),
    ("dependency-check", {
      tier := .templated
      note := "Replace OWASP Dependency-Check with the Dependency Scanning template."
      equivalent := some "Dependency Scanning"
      include_ := some "template: Jobs/Dependency-Scanning.gitlab-ci.yml"
      documentation := some (docs "/user/application_security/dependency_scanning/") }),
    ("checkmarx", {
      tier := .templated
      note := "Use the SAST template, or call the Checkmarx CLI from a job."
      equivalent := some "SAST"
      include_ := some "template: Jobs/SAST.gitlab-ci.yml"
      documentation := some (docs "/user/application_security/sast/") }),
    ("terraform", {
      tier := .templated
      note := "Use the Terraform base template and GitLab-managed Terraform state."
      equivalent := some "Terraform templates"
      include_ := some "template: Terraform/Base.gitlab-ci.yml"
      documentation := some (docs "/user/infrastructure/iac/") }),
    ("kubernetes-cd", {
      tier := .templated
      note := "Deploy from a job using the GitLab agent for Kubernetes or a file-typed KUBECONFIG."
      equivalent := some "kubectl/helm job with a cluster agent"
      documentation := some (docs "/user/clusters/agent/ci_cd_workflow.html") }),
    ("shared-library", {
      tier := .templated
      note := "Move shared library steps into reusable CI templates pulled in with include:project."
      equivalent := some "include:project"
      documentation := some (docs "/ci/yaml/includes.html") }),
    ("hashicorp-vault", {
      tier := .templated
      note := "Use the secrets:vault keyword with ID tokens."
      equivalent := some "secrets:vault"
      documentation := some (docs "/ci/secrets/") })]

def limitedEntries : List (Text × CompatibilityEntry) :=
  [("slack", {
      tier := .limited
      note := "Pipeline events can notify Slack via the integration; ".toList ++
        "custom messages need a webhook job."
      equivalent := some "Slack notifications integration"
      documentation := some (docs "/user/project/integrations/gitlab_slack_application.html")
      alternative := some "curl to an incoming webhook stored in SLACK_WEBHOOK_URL" }),
    ("email-ext", {
      tier := .limited
      note := "Pipeline status emails are configured in project integrations, not in YAML."
      equivalent := some "Pipeline emails integration"
      documentation := some (docs "/user/project/integrations/pipeline_status_emails.html")
      alternative := some "send mail from a job with a small SMTP client" }),
    ("publishhtml", {
      tier := .limited
      note := "Expose HTML reports as artifacts or publish them with GitLab Pages."
      equivalent := some "artifacts:expose_as or Pages"
      documentation := some (docs "/ci/yaml/#artifactsexpose_as") }),
    ("warnings-ng", {
      tier := .limited
      note := "Convert analyzer output to the Code Quality report format."
      equivalent := some "Code Quality report"
      documentation := some (docs "/ci/testing/code_quality.html") }),
    ("ssh-agent", {
      tier := .limited
      note := "Start ssh-agent in the job and load a file-typed SSH key variable."
      equivalent := some "ssh-agent in before_script"
      documentation := some (docs "/ci/ssh_keys/") }),
    ("pipeline-aws", {
      tier := .limited
      note := "Authenticate with ID tokens or AWS credential variables and call the AWS CLI."
      equivalent := some "aws-cli image with OIDC"
      documentation := some (docs "/ci/cloud_services/aws/") }),
    ("s3", {
      tier := .limited
      note := "Upload with the AWS CLI from a job."
      equivalent := some "aws s3 cp from an aws-cli job"
      documentation := some (docs "/ci/cloud_services/aws/") }),
    ("azure-storage", {
      tier := .limited
      note := "Upload with the Azure CLI from a job."
      equivalent := some "az storage from an azure-cli job" }),
    ("google-cloud-storage", {
      tier := .limited
      note := "Upload with gsutil from a job."
      equivalent := some "gsutil from a cloud-sdk job" }),
    ("nexus-artifact-uploader", {
      tier := .limited
      note := "Publish to the GitLab package registry or upload to Nexus with curl."
      equivalent := some "Package registry or curl upload"
      documentation := some (docs "/user/packages/package_registry/") }),
    ("artifactory", {
      tier := .limited
      note := "Call the JFrog CLI from a job."
      equivalent := some "JFrog CLI job" }),
    ("ansible", {
      tier := .limited
      note := "Run ansible-playbook from a job with inventory and keys as variables."
      equivalent := some "ansible image job" }),
    ("selenium", {
      tier := .limited
      note := "Run browsers as job services."
      equivalent := some "selenium service container"
      documentation := some (docs "/ci/services/") }),
    ("cypress", {
      tier := .limited
      note := "Run Cypress inside the cypress/browsers image."
      equivalent := some "cypress image job" }),
    ("performance", {
      tier := .limited
      note := "Port load tests to k6 or run the existing tool in a job."
      equivalent := some "Load Performance Testing"
      include_ := some "template: Verify/Load-Performance-Testing.gitlab-ci.yml"
      documentation := some (docs "/ci/testing/load_performance_testing.html") })]

def unsupportedEntries : List (Text × CompatibilityEntry) :=
  [("xcode", {
      tier := .unsupported
      note := "Requires a macOS runner; no hosted equivalent is assumed."
      alternative := some "self-managed macOS runner" }),
    ("android-emulator", {
      tier := .unsupported
      note := "Emulators need a runner with KVM access."
      alternative := some "self-managed runner with hardware virtualization" })]

def catalog : List (Text × CompatibilityEntry) :=
  nativeEntries ++ templatedEntries ++ limitedEntries ++ unsupportedEntries

end PipelineMigration.Capability
