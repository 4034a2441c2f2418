import PipelineMigration.Credential.Basic
import PipelineMigration.Keyed
set_option autoImplicit false

/- How a script uses credentials, and what to do about it. -/
namespace PipelineMigration

structure CredentialUsage where
  total : Nat
  byKind : List (Text × Nat)
  potentialSecrets : List Text
  recommendations : List Text
deriving DecidableEq

namespace Credential

def usesKind (kind : ReferenceKind) (hits : List CredentialHit) : Bool :=
  hits.any fun h => h.kind == kind

def reviewAdvice (count : Nat) : Text :=
  "Review " ++ Text.ofNat count ++ " environment variable(s) that look like secrets; " ++
    "they may need to become masked variables."

def recommendations (hits : List CredentialHit) (secrets : List Text) : List Text :=
  (if secrets.isEmpty then [] else [reviewAdvice secrets.length]) ++
    (if usesKind .file hits || usesKind .sshUserPrivateKey hits then
      ["Upload file and SSH key credentials as file-type variables.".toList] else []) ++
    (if usesKind .usernamePassword hits then
      ["Username/password credentials are split into _USER and _PASS variables.".toList]
      else []) ++
    if hits.isEmpty then []
    else ["Protect production secrets and limit them to protected branches.".toList]

/-- How many references there are of each kind, kinds by name. -/
def countKinds (hits : List CredentialHit) : List (Text × Nat) :=
  ((Keyed.groups (fun h : CredentialHit => h.kind.name) hits).map fun (kind, group) =>
    (kind, group.length)).mergeSort fun a b => Text.notAfter a.1 b.1

def usage (hits : List CredentialHit) : CredentialUsage :=
  let secrets := (hits.filter fun h => h.kind == .env).map (·.sourceId)
  { total := hits.length
    byKind := countKinds hits
    potentialSecrets := secrets
    recommendations := recommendations hits secrets }

end Credential
end PipelineMigration
