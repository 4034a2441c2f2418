import PipelineMigration.Credential.Basic
set_option autoImplicit false

/- The template of assignments to fill in: each variable under a comment that describes it. -/
namespace PipelineMigration.Credential

def envFileHeader : List Text :=
  ["# GitLab CI/CD variables converted from Jenkins credentials",
    "# Replace every placeholder, then create the variables under",
    "# Settings > CI/CD > Variables or with the provisioning script.",
    "# File variables take the file content (" ++ ValueKind.filePlaceholder ++ ").",
    ""]

def envFileEntry (v : VariableSpec) : List Text :=
  ["# " ++ v.description ++ " [" ++ v.flags ++ "] scope=" ++ v.scope,
    v.key ++ '=' :: v.placeholder,
    []]

def envFile (specs : List VariableSpec) : Text :=
  Text.join "\n" (envFileHeader ++ specs.flatMap envFileEntry)

end PipelineMigration.Credential
