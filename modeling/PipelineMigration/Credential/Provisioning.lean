import PipelineMigration.Credential.Basic
import PipelineMigration.Text.Quotation
set_option autoImplicit false

/- Commands that create the planned variables over the target's interface: one call for one
   variable, or a script that creates all of them in batches. -/
namespace PipelineMigration.Credential

open Text.Shell (quote expansion)

def apiUrl : Text := "https://gitlab.com/api/v4"

def boolText (b : Bool) : Text := if b then "true" else "false"

/-- The words that describe a variable to the interface. -/
def creationWords (v : VariableSpec) : List Text :=
  [v.key, v.placeholder, v.valueKind.variableType, boolText v.masked, boolText v.protected_,
    v.scope]

def formFields (v : VariableSpec) : List Text :=
  ["key=" ++ v.key,
    "value=" ++ v.placeholder,
    "variable_type=" ++ v.valueKind.variableType,
    "masked=" ++ boolText v.masked,
    "protected=" ++ boolText v.protected_,
    "environment_scope=" ++ v.scope]

def tokenHeader : Text :=
  "--header \"PRIVATE-TOKEN: " ++ expansion "GITLAB_TOKEN" ++ "\""

def curlCall (projectId : Text) (v : VariableSpec) : Text :=
  Text.join " \\\n  " <|
    ["curl --request POST".toList, tokenHeader,
      "\"" ++ apiUrl ++ "/projects/" ++ projectId ++ "/variables\""] ++
      (formFields v).map fun field => "--form ".toList ++ quote field

/-- An assignment that the environment overrides. -/
def defaulted (name value : Text) : Text :=
  name ++ "=\"" ++ expansion (name ++ ":-" ++ value) ++ "\""

/-- Ends the script when a variable is empty. -/
def requireVariable (name reference : Text) : List Text :=
  ["if [ -z \"" ++ expansion reference ++ "\" ]; then",
    "  echo \"" ++ name ++ " is not set\" >&2",
    "  exit 1",
    "fi"]

def dryRunTest : Text := "if [ \"" ++ expansion "DRY_RUN" ++ "\" = \"true\" ]; then"

def formField (field name : Text) : Text :=
  "    --form \"" ++ field ++ "=" ++ expansion name ++ "\""

def dryRunReport : Text :=
  "    echo \"[DRY RUN] Would create " ++ expansion "key" ++ " (" ++ expansion "type" ++
    ", masked=" ++ expansion "masked" ++ ", protected=" ++ expansion "protected" ++ ", scope=" ++
    expansion "scope" ++ ")\""

def createFunction : List Text :=
  ["create_variable() \x7b".toList,
    "  local key=\"$1\" value=\"$2\" type=\"$3\" masked=\"$4\" protected=\"$5\" scope=\"$6\"",
    "  " ++ dryRunTest,
    dryRunReport,
    "    return 0",
    "  fi",
    "  curl --silent --show-error --fail --request POST \\",
    "    " ++ tokenHeader ++ " \\",
    "    \"" ++ expansion "GITLAB_API_URL" ++ "/projects/" ++ expansion "PROJECT_ID" ++
      "/variables\" \\",
    formField "key" "key" ++ " \\",
    formField "value" "value" ++ " \\",
    formField "variable_type" "type" ++ " \\",
    formField "masked" "masked" ++ " \\",
    formField "protected" "protected" ++ " \\",
    formField "environment_scope" "scope" ++ " > /dev/null",
    "  echo \"Created " ++ expansion "key" ++ "\"",
    "\x7d"]

def scriptHead (projectId : Text) (dryRun : Bool) : List Text :=
  ["#!/usr/bin/env bash".toList,
    "# Create GitLab CI/CD variables converted from Jenkins credentials.",
    "# Fill in every placeholder value before running without DRY_RUN.",
    "set -euo pipefail",
    "",
    defaulted "GITLAB_API_URL" apiUrl,
    defaulted "PROJECT_ID" projectId,
    defaulted "DRY_RUN" (boolText dryRun),
    ""] ++
  requireVariable "GITLAB_TOKEN" "GITLAB_TOKEN:-" ++ requireVariable "PROJECT_ID" "PROJECT_ID" ++
  [[]] ++ createFunction ++
  [[], dryRunTest, "  echo \"DRY RUN MODE - no variables will be created\"", "fi"]

def createCommand (v : VariableSpec) : Text :=
  "create_variable " ++ Text.join " " ((creationWords v).map quote)

/-- Between one and fifty variables go into a batch. -/
def clampBatch (size : Int) : Nat := (max 1 (min 50 size)).toNat

/-- Cuts a list into pieces of `size + 1`. -/
def batchesOf (size : Nat) (specs : List VariableSpec) : List (List VariableSpec) :=
  if h : specs = [] then []
  else specs.take (size + 1) :: batchesOf size (specs.drop (size + 1))
termination_by specs.length
decreasing_by
  have := List.length_pos_iff.mpr h
  simp only [List.length_drop]
  omega

def batches (batchSize : Int) (specs : List VariableSpec) : List (List VariableSpec) :=
  batchesOf (clampBatch batchSize - 1) specs

/-- The batches with their numbers, a pause after each but the last. -/
def batchLines (number : Nat) : List (List VariableSpec) → List Text
  | [] => []
  | batch :: rest =>
    [[], "# Batch ".toList ++ Text.ofNat number] ++ batch.map createCommand ++
      (if rest.isEmpty then [] else ["sleep 1".toList]) ++ batchLines (number + 1) rest

def provisioningScript (projectId : Text) (dryRun : Bool) (batchSize : Int)
    (specs : List VariableSpec) : Text :=
  Text.join "\n" <|
    scriptHead projectId dryRun ++ batchLines 1 (batches batchSize specs) ++
      [[], "echo \"Processed ".toList ++ Text.ofNat specs.length ++ " variable(s)\"".toList, []]

end PipelineMigration.Credential
