import PipelineMigration.Capability.Basic
import PipelineMigration.Pattern.Search
set_option autoImplicit false

/- The calls and blocks by which a capability shows in a line of script. -/
namespace PipelineMigration

/-- What a signature says is used: a fixed capability, or the one that the first slot names. -/
inductive SignatureTarget where
  | fixed (id : Text)
  | named
deriving DecidableEq

structure Signature where
  pattern : Pattern
  target : SignatureTarget
  confidence : HitConfidence

namespace Signature

open Pattern

def opensCall : Pattern := blanks ++ "("
def opensCallOrBlock : Pattern := blanks ++ one fun c => c == '(' || c == '\x7b'

/-- A call of one of the steps. -/
def calls (id : String) (confidence : HitConfidence) (steps : List String) : Signature :=
  ⟨edge ++ anyOf (steps.map (exactly ·.toList)) ++ opensCall, .fixed id, confidence⟩

/-- A call or a block of one of the steps. -/
def opens (id : String) (confidence : HitConfidence) (steps : List String) : Signature :=
  ⟨edge ++ anyOf (steps.map (exactly ·.toList)) ++ opensCallOrBlock, .fixed id, confidence⟩

def libraryLoad : Pattern := "@Library(" ++ blanks ++ quoteMark ++ unquoted 1 ++ quoteMark

def dockerCall : Pattern :=
  "docker" ++ blanks ++ "." ++ blanks ++
    anyOf ["build", "image", "withRegistry", "withDockerRegistry", "withServer"]

def credentialArgument (step : String) : Pattern :=
  edge ++ step ++ opensCall ++ blanks ++ "credentialsId"

def testReport : Pattern :=
  edge ++ "junit" ++ edge ++ blanks ++
    anyOf [one fun c => c == '(' || Text.isQuote c, "testResults" ++ blanks ++ ":"]

def stashCall : Pattern := orElse (edge ++ "stash" ++ opensCall) (edge ++ "unstash" ++ opensCall)

def inputStep : Pattern :=
  orElse (edge ++ "input" ++ opensCall)
    (edge ++ "input" ++ longest 1 Text.isBlank ++ "message" ++ blanks ++ ":")

def buildStep : Pattern :=
  edge ++ "build" ++ blanks ++ optional "(" ++ blanks ++ "job" ++ blanks ++ ":"

/-- Any name that opens a block. -/
def anyBlock : Pattern :=
  edge ++ capture 1 (one Text.isAsciiLetter ++
    longest 0 fun c => Text.isIdentifierRest c || c == '-') ++ blanks ++ "\x7b"

def credentialSignatures : List Signature :=
  [⟨libraryLoad, .fixed "shared-library", .high⟩,
    ⟨dockerCall, .fixed "docker-workflow", .high⟩,
    calls "docker-workflow" .high ["withDockerRegistry"],
    calls "credentials-binding" .high ["withCredentials"],
    calls "credentials-binding" .high ["usernamePassword"],
    ⟨credentialArgument "string", .fixed "credentials-binding", .high⟩,
    ⟨credentialArgument "file", .fixed "credentials-binding", .high⟩,
    calls "credentials-binding" .high ["sshUserPrivateKey"],
    calls "ssh-agent" .high ["sshagent"]]

def resultSignatures : List Signature :=
  [⟨testReport, .fixed "junit", .high⟩,
    calls "junit" .high ["publishTestResults"],
    calls "publishhtml" .high ["publishHTML"],
    calls "jacoco" .high ["jacoco"],
    calls "cobertura" .high ["cobertura"],
    calls "warnings-ng" .high ["recordIssues"],
    ⟨edge ++ "archiveArtifacts" ++ edge, .fixed "archive-artifacts", .high⟩,
    ⟨stashCall, .fixed "stash", .medium⟩,
    calls "slack" .high ["slackSend"],
    calls "email-ext" .high ["emailext"],
    calls "email-ext" .medium ["mail"]]

def controlSignatures : List Signature :=
  [calls "build-timeout" .high ["timeout"],
    calls "retry" .high ["retry"],
    calls "ws-cleanup" .high ["cleanWs"],
    calls "ws-cleanup" .high ["deleteDir"],
    calls "lockable-resources" .high ["lock"],
    ⟨inputStep, .fixed "pipeline-input-step", .high⟩,
    ⟨buildStep, .fixed "pipeline-build-step", .high⟩,
    calls "hashicorp-vault" .high ["withVault"],
    calls "pipeline-aws" .high ["withAWS"],
    calls "kubernetes-cd" .high ["withKubeConfig", "kubeconfigFile"],
    opens "sonarqube" .high ["withSonarQubeEnv", "sonarqube"],
    calls "sonarqube" .high ["waitForQualityGate"]]

def toolSignatures : List Signature :=
  [opens "maven-invoker" .medium ["withMaven", "mvn"],
    opens "nodejs" .medium ["nodejs", "npm", "yarn"],
    opens "gradle" .medium ["gradle", "gradlew", "withGradle"],
    opens "python" .medium ["python", "pip"],
    opens "terraform" .medium ["terraform", "tf"],
    opens "ansible" .medium ["ansible", "ansiblePlaybook"],
    opens "kubernetes-cd" .medium ["helm", "kubectl"],
    opens "checkmarx" .high ["checkmarx", "cx"],
    opens "dependency-check" .high ["dependencyCheck", "owasp"],
    opens "selenium" .medium ["selenium", "webdriver"],
    opens "cypress" .high ["cypress"],
    opens "performance" .medium ["gatling", "jmeter"]]

def transferSignatures : List Signature :=
  [calls "s3" .high ["s3Upload", "s3Download"],
    calls "azure-storage" .high ["azureUpload"],
    calls "google-cloud-storage" .high ["googleStorageUpload"],
    calls "nexus-artifact-uploader" .high ["nexusArtifactUploader", "nexusPublisher"],
    calls "artifactory" .high ["rtUpload", "rtServer", "rtMavenRun"],
    opens "xcode" .high ["xcodebuild", "xcode"],
    opens "android-emulator" .medium ["androidEmulator"],
    opens "dotnet" .medium ["dotnet", "msbuild"]]

/-- Fixed signatures first; last the one that any block matches. -/
def all : List Signature :=
  credentialSignatures ++ resultSignatures ++ controlSignatures ++ toolSignatures ++
    transferSignatures ++ [⟨anyBlock, .named, .low⟩]

end Signature
end PipelineMigration
