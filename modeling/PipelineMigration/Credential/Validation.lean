import PipelineMigration.Credential.Basic
import PipelineMigration.Credential.Key
set_option autoImplicit false

/- Problems with the keys of planned variables and with ids used as keys. -/
namespace PipelineMigration

structure ValidationReport where
  valid : Bool
  errors : List Text := []
  warnings : List Text := []
deriving DecidableEq

structure IdReport where
  valid : Bool
  issues : List Text
  suggestedKey : Text
deriving DecidableEq

namespace KeyPolicy

def sayIf (problem : Bool) (s : Text) : List Text := if problem then [s] else []

def keyErrors (p : KeyPolicy) (seen : Bool) (key : Text) : List Text :=
  sayIf seen ("Duplicate variable key: ".toList ++ key) ++
    sayIf (!hasKeyForm key) ("Invalid variable key format: ".toList ++ key) ++
    sayIf (p.maxLength < key.length)
      ("Variable key exceeds " ++ Text.ofInt p.maxLength ++ " characters: " ++ key)

def keyWarnings (p : KeyPolicy) (v : VariableSpec) : List Text :=
  sayIf (p.reservedPrefix.isPrefixOf v.key)
      ("Variable " ++ v.key ++ " starts with " ++ p.reservedPrefix ++
        " (GitLab reserved prefix)") ++
    sayIf (p.warnLength < v.key.length) ("Variable key is very long: ".toList ++ v.key) ++
    sayIf (v.valueKind == .file && v.masked)
      ("File variable " ++ v.key ++ " cannot be masked")

/-- The errors of a list of keys, those in `seen` having come before. -/
def errorsFrom (p : KeyPolicy) (seen : List Text) : List Text → List Text
  | [] => []
  | key :: rest => p.keyErrors (seen.contains key) key ++ p.errorsFrom (key :: seen) rest

def validate (p : KeyPolicy) (specs : List VariableSpec) : ValidationReport :=
  let errors := p.errorsFrom [] (specs.map (·.key))
  { valid := errors.isEmpty, errors, warnings := specs.flatMap p.keyWarnings }

def formRule : Text :=
  "Variable name must use uppercase letters, digits and underscores, ".toList ++
    "and must not start with a digit"

/-- The problems an id would have as a key. -/
def checkId (p : KeyPolicy) (id : Text) : IdReport :=
  let issues :=
    sayIf (!hasKeyForm id) formRule ++
      sayIf (p.maxLength < id.length)
        ("Variable name exceeds " ++ Text.ofInt p.maxLength ++ " characters") ++
      sayIf (p.reservedPrefix.isPrefixOf id.upper)
        ("Variable name cannot start with " ++ p.reservedPrefix ++ " (reserved prefix)")
  { valid := issues.isEmpty, issues, suggestedKey := p.key id }

end KeyPolicy
end PipelineMigration
