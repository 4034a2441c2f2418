import PipelineMigration.Capability.Basic
set_option autoImplicit false

/- Build tools: their images, what they cache and how they build and test. -/
namespace PipelineMigration

structure BuildTool where
  name : Text
  image : Text
  cachePaths : List Text := []
  assignments : List (Text × Text) := []
  build : List Text := []
  test : List Text := []
  artifactPaths : List Text := []
  junitPath : Text := "**/test-results/*.xml"
deriving DecidableEq

namespace BuildTool

def maven : BuildTool :=
  { name := "maven", image := "maven:3.9.6-eclipse-temurin-17"
    cachePaths := [".m2/repository/"]
    assignments := [("MAVEN_OPTS", "-Dmaven.repo.local=$CI_PROJECT_DIR/.m2/repository")]
    build := ["mvn -B -DskipTests package"], test := ["mvn -B test"]
    artifactPaths := ["target/*.jar"], junitPath := "target/surefire-reports/TEST-*.xml" }

def gradle : BuildTool :=
  { name := "gradle", image := "gradle:8.5-jdk17"
    cachePaths := [".gradle/"], assignments := [("GRADLE_USER_HOME", "$CI_PROJECT_DIR/.gradle")]
    build := ["gradle assemble"], test := ["gradle test"]
    artifactPaths := ["build/libs/"], junitPath := "build/test-results/test/TEST-*.xml" }

def node : BuildTool :=
  { name := "node", image := "node:20.11-alpine"
    cachePaths := ["node_modules/"]
    build := ["npm ci", "npm run build --if-present"], test := ["npm test"]
    artifactPaths := ["dist/"], junitPath := "junit.xml" }

def python : BuildTool :=
  { name := "python", image := "python:3.12-slim"
    cachePaths := [".cache/pip/"], assignments := [("PIP_CACHE_DIR", "$CI_PROJECT_DIR/.cache/pip")]
    build := ["pip install -r requirements.txt"], test := ["python -m pytest --junitxml=report.xml"]
    junitPath := "report.xml" }

def dotnet : BuildTool :=
  { name := "dotnet", image := "mcr.microsoft.com/dotnet/sdk:8.0"
    build := ["dotnet build --configuration Release"], test := ["dotnet test --logger junit"]
    junitPath := "**/TestResults/*.xml" }

def generic : BuildTool :=
  { name := "generic", image := "alpine:3.19"
    build := ["echo \"Port the Jenkins build steps here\""]
    test := ["echo \"Port the Jenkins test steps here\""] }

/-- Tools by capability; the first one in use decides. -/
def byCapability : List (Text × BuildTool) :=
  [("maven-invoker", maven), ("gradle", gradle), ("nodejs", node), ("python", python),
    ("dotnet", dotnet)]

def of (verdicts : List Verdict) : BuildTool :=
  ((byCapability.find? fun (id, _) => verdicts.any fun v => v.id == id).map (·.2)).getD generic

end BuildTool
end PipelineMigration
