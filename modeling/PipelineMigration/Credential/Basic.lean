import PipelineMigration.Text.Basic
set_option autoImplicit false

/- Credentials that a script refers to, and the variables of the target that take their place. -/
namespace PipelineMigration

/-- The form of a reference to a credential. -/
inductive ReferenceKind where
  | step | withCredentials | usernamePassword | string | file | sshUserPrivateKey | env
deriving DecidableEq

namespace ReferenceKind

def all : List ReferenceKind :=
  [step, withCredentials, usernamePassword, string, file, sshUserPrivateKey, env]

def name : ReferenceKind → Text
  | step => "step"
  | withCredentials => "withCredentials"
  | usernamePassword => "usernamePassword"
  | string => "string"
  | file => "file"
  | sshUserPrivateKey => "sshUserPrivateKey"
  | env => "env"

def ofName? (s : Text) : Option ReferenceKind := all.find? (·.name == s)

end ReferenceKind

inductive ValueKind where
  | text | file
deriving DecidableEq

namespace ValueKind

def name : ValueKind → Text
  | text => "text"
  | file => "file"

def ofName? (s : Text) : Option ValueKind := [text, file].find? (·.name == s)

/-- The target's own word for the kind. -/
def variableType : ValueKind → Text
  | text => "env_var"
  | file => "file"

def valuePlaceholder : Text := "<ADD_VALUE>"
def filePlaceholder : Text := "<BASE64_FILE_CONTENT>"

/-- What stands where the value goes. -/
def placeholder : ValueKind → Text
  | text => valuePlaceholder
  | file => filePlaceholder

end ValueKind

/-- A reference to a credential found in a script. -/
structure CredentialHit where
  sourceId : Text
  line : Int
  kind : ReferenceKind
  matchedText : Text
  context : Text := []
deriving DecidableEq

/-- A variable to create on the target; it never carries a value. -/
structure VariableSpec where
  sourceId : Text
  key : Text
  valueKind : ValueKind
  masked : Bool
  protected_ : Bool
  scope : Text
  description : Text
  classifier : Text
deriving DecidableEq

namespace VariableSpec

def placeholder (v : VariableSpec) : Text := v.valueKind.placeholder

/-- The kind and what guards the value. -/
def flags (v : VariableSpec) : Text :=
  Text.join ", " <|
    [v.valueKind.name] ++ (if v.masked then ["masked".toList] else []) ++
      if v.protected_ then ["protected".toList] else []

end VariableSpec

/-- What a credential becomes: one variable, or several that replace it. -/
structure PlannedCredential where
  own : VariableSpec
  children : List VariableSpec
deriving DecidableEq

/-- The variables to create for a credential. -/
def PlannedCredential.specs (p : PlannedCredential) : List VariableSpec :=
  if p.children.isEmpty then [p.own] else p.children

end PipelineMigration
