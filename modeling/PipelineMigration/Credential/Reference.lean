import PipelineMigration.Credential.Basic
import PipelineMigration.Keyed
import PipelineMigration.Pattern.Search
import PipelineMigration.Script.Literal
import PipelineMigration.Text.Alphabet
set_option autoImplicit false

/- References to credentials in a script, comments left out. Of several references to one
   credential the first by line, then by form, counts. -/
namespace PipelineMigration

structure CredentialReference where
  pattern : Pattern
  kind : ReferenceKind
  description : Text

namespace CredentialReference

open Pattern

def quotedId : Pattern := quoteMark ++ unquoted 1 ++ quoteMark

/-- A step that takes a credential by a named argument, before any closing parenthesis. -/
def bySteps (steps : List String) (argument : String) : Pattern :=
  edge ++ anyOf (steps.map (exactly ·.toList)) ++ "(" ++ longest 0 (· != ')') ++
    exactly (argument.toList ++ [':']) ++ blanks ++ quotedId

def lookup : Pattern := edge ++ "credentials(" ++ blanks ++ quotedId ++ blanks ++ ")"

def registryArgument : Pattern :=
  "docker.withRegistry(" ++ longest 0 (· != ',') ++ "," ++ blanks ++ quotedId ++ blanks ++ ")"

def vaultArgument : Pattern := edge ++ "vaultCredentialId:" ++ blanks ++ quotedId

def isNameChar (c : Char) : Bool :=
  ('A' ≤ c && c ≤ 'Z') || Text.isAsciiDigit c || c == '_'

/-- The ending of a name that holds a secret by convention. -/
def secretEnding : Pattern := anyOf
  ["_KEY", "_TOKEN", "_PASS", "_PASSWORD", "_SECRET", "_CERT", "_PEM", "_PRIVATE", "_PUBLIC"]

def secretVariable : Pattern := capture 1 (longest 1 isNameChar ++ secretEnding)

def environmentMember : Pattern := edge ++ "env." ++ secretVariable ++ edge

def environmentExpansion : Pattern :=
  "$" ++ optional "\x7b" ++ secretVariable ++ aheadIsNot Text.isIdentifierRest ++ optional "\x7d"

def all : List CredentialReference :=
  [⟨lookup, .step, "credentials() lookup"⟩,
    ⟨bySteps ["usernamePassword"] "credentialsId", .usernamePassword, "Username/password binding"⟩,
    ⟨bySteps ["sshUserPrivateKey"] "credentialsId", .sshUserPrivateKey, "SSH private key binding"⟩,
    ⟨bySteps ["file"] "credentialsId", .file, "Secret file binding"⟩,
    ⟨bySteps ["certificate"] "credentialsId", .file, "Certificate binding"⟩,
    ⟨bySteps ["string"] "credentialsId", .string, "Secret text binding"⟩,
    ⟨bySteps ["withCredentials"] "credentialsId", .withCredentials, "withCredentials block"⟩,
    ⟨registryArgument, .step, "Docker registry credentials"⟩,
    ⟨bySteps ["kubeconfigFile", "withKubeConfig"] "credentialsId", .file, "Kubernetes config file"⟩,
    ⟨bySteps ["withAWS"] "credentials", .step, "AWS credentials"⟩,
    ⟨vaultArgument, .step, "Vault access credentials"⟩,
    ⟨environmentMember, .env, "Secret-like environment variable"⟩,
    ⟨environmentExpansion, .env, "Secret-like environment variable reference"⟩]

def hitOf? (source : Text) (r : CredentialReference) (m : Match) : Option CredentialHit := do
  let span ← m.span? 1
  let id := Text.trim span.text
  if id.isEmpty then none
  else some ⟨id, Text.lineAt source span.start.index, r.kind, Text.squeeze m.text, r.description⟩

/-- Every reference, form by form. -/
def hitsIn (source : Text) : List CredentialHit :=
  all.flatMap fun r => (r.pattern.allMatches source).filterMap (hitOf? source r)

/-- The first reference to each credential, in the order of lines. -/
def scan (script : Text) : List CredentialHit :=
  let hits := (hitsIn (Script.stripComments script)).mergeSort fun a b => a.line ≤ b.line
  (Keyed.firstOfPairs (hits.map fun h => (h.sourceId, h))).map (·.2)

/-- A whole name of capitals, digits and underscores with a secret ending. -/
def secretNamePattern : Pattern :=
  textStart ++ longest 0 isNameChar ++ secretEnding ++ textEnd

/-- Whether a name, in capitals, holds a secret by convention. -/
def isSecretName (name : Text) : Bool := (secretNamePattern.matchStart name).isSome

end CredentialReference
end PipelineMigration
