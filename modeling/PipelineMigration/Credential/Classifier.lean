import PipelineMigration.Credential.Basic
import PipelineMigration.Keyed
import PipelineMigration.Pattern.Search
import PipelineMigration.Text.LetterCase
set_option autoImplicit false

/- What kind of variable a credential becomes, judged by words in the first line of its id and,
   failing that, by the form of the reference. -/
namespace PipelineMigration

structure Classifier where
  name : Text
  pattern : Pattern
  valueKind : ValueKind
  masked : Bool
  protected_ : Bool := true
  description : Text
  /-- Endings of the variables that a composite credential is split into. -/
  children : List (Text × Text) := []

namespace Classifier

open Pattern

def anything : Pattern := longest 0 (· != '\n')
def oneOf (words : List String) : Pattern := anyOf (words.map (exactly ·.toList))

/-- One of the words somewhere in the first line. -/
def mentions (words : List String) : Pattern := anything ++ oneOf words ++ anything

def byWords : List Classifier :=
  [{ name := "username-password"
     pattern := anything ++ oneOf ["user", "username", "usr", "login", "account"] ++ anything ++
       oneOf ["pass", "password", "pwd"] ++ anything
     valueKind := .text, masked := true, description := "Username/password credential pair"
     children := [("USER", "Username part"), ("PASS", "Password part")] },
   { name := "registry"
     pattern := anything ++ edge ++ oneOf ["docker", "registry", "repo", "harbor", "ecr", "gcr"] ++
       edge ++ anything
     valueKind := .text, masked := true, description := "Container registry credentials"
     children := [("USER", "Registry username"), ("PASS", "Registry password")] },
   { name := "token", pattern := mentions ["token", "key", "api", "secret", "auth"]
     valueKind := .text, masked := true, description := "API token or secret key" },
   { name := "file"
     pattern := anything ++ oneOf ["cert", "certificate", "pem", "p12", "pfx", "jks", "keystore",
       "config", "kubeconfig", "ssh", "rsa", "key"] ++ anything ++ "file" ++ anything
     valueKind := .file, masked := false
     description := "File credential (certificate, key, or config)" },
   { name := "ssh-key"
     pattern := anything ++ anyOf ["ssh", "rsa", "private" ++ anything ++ "key",
       "pub" ++ anything ++ "key"] ++ anything
     valueKind := .text, masked := true, description := "SSH private key" },
   { name := "database"
     pattern := mentions ["db", "database", "mysql", "postgres", "oracle", "sql", "mongo"]
     valueKind := .text, masked := true, description := "Database credentials"
     children := [("USER", "Database username"), ("PASS", "Database password"),
       ("HOST", "Database host"), ("NAME", "Database name")] },
   { name := "cloud", pattern := mentions ["aws", "azure", "gcp", "google", "cloud"]
     valueKind := .text, masked := true, description := "Cloud provider credentials" }]

def fileBinding : Classifier :=
  { name := "file-binding", pattern := anything, valueKind := .file, masked := false
    description := "File credential" }

def pairBinding : Classifier :=
  { name := "username-password-binding", pattern := anything, valueKind := .text, masked := true
    description := "Username/password credential"
    children := [("USER", "Username"), ("PASS", "Password")] }

def generic : Classifier :=
  { name := "generic", pattern := anything, valueKind := .text, masked := true
    description := "Secret credential" }

def ofKind : ReferenceKind → Classifier
  | .file => fileBinding
  | .sshUserPrivateKey => fileBinding
  | .usernamePassword => pairBinding
  | _ => generic

/-- The first classifier whose words the id mentions, else the one of the reference. -/
def of (hit : CredentialHit) : Classifier :=
  let id := hit.sourceId.lower
  (byWords.find? fun c => (c.pattern.matchStart id).isSome).getD (ofKind hit.kind)

end Classifier
end PipelineMigration
