import PipelineMigration.Credential.Plan
import PipelineMigration.Credential.Reference
import PipelineMigration.Feature.Basic
import PipelineMigration.Job.Basic
import PipelineMigration.Job.BuildTool
import PipelineMigration.Text.Quotation
import PipelineMigration.Yaml.Quote
set_option autoImplicit false

/- The variables section. Parameters come first, then environment entries, then the variables of
   the build tool; a name counts once, where it first comes. A value that may be secret is
   withheld: its entry is a comment that does not depend on the value. -/
namespace PipelineMigration.Configuration

/-- An entry of the section. -/
inductive VariableEntry where
  | withheld (remark : Text)
  | plain (key value : Text)
  | detailed (key value : Text) (choices : List Text) (description : Text)
deriving DecidableEq

namespace VariableEntry

def isWithheld : VariableEntry → Bool
  | withheld _ => true
  | _ => false

def choiceLines (choices : List Text) : List Text :=
  if choices.isEmpty then []
  else "    options:".toList :: choices.map fun c => "      - ".toList ++ Yaml.quote c

def lines : VariableEntry → List Text
  | withheld remark => ["  # " ++ remark]
  | plain key value => ["  " ++ Yaml.key key ++ ": " ++ Yaml.quote value]
  | detailed key value choices description =>
    ["  ".toList ++ Yaml.key key ++ ":".toList, "    value: ".toList ++ Yaml.quote value] ++
      choiceLines choices ++
      if description.isEmpty then [] else ["    description: ".toList ++ Yaml.quote description]

end VariableEntry

/-- The names under which the planned variables are known. -/
def secretNames (specs : List VariableSpec) : List Text :=
  specs.map (·.key) ++ specs.map (·.sourceId)

def looksSecret (name : Text) : Bool := CredentialReference.isSecretName name.upper

def passwordRemark (name : Text) : Text :=
  name ++ ": " ++ ValueKind.valuePlaceholder ++ " (password parameter, define as a masked variable)"

/-- The remark on a value that was taken out; `what` is what it was in the script. -/
def removedRemark (what name : Text) : Text :=
  Job.review <| name ++ ": " ++ ValueKind.valuePlaceholder ++ " (" ++ what ++
    " removed from the Jenkinsfile; define it as a masked variable)"

/-- The default of a parameter; a choice without one takes the first choice. -/
def defaultValue (p : Parameter) : Text :=
  if p.kind == .choice && p.default.isEmpty then p.choices.head?.getD [] else p.default

def parameterEntry (secrets : List Text) (p : Parameter) : VariableEntry :=
  if p.kind == .password || secrets.contains p.name then .withheld (passwordRemark p.name)
  else if !p.default.isEmpty && looksSecret p.name then
    .withheld (removedRemark "default" p.name)
  else if p.description.isEmpty && p.choices.isEmpty then .plain p.name (defaultValue p)
  else .detailed p.name (defaultValue p) p.choices p.description

/-- A reference to a parameter or environment value. -/
def scriptReference : Pattern :=
  "$\x7b" ++ Pattern.anyOf ["env", "params"] ++ "." ++
    Pattern.capture 1
      (Pattern.one Text.isIdentifierStart ++ Pattern.longest 0 Text.isIdentifierRest)
    ++ "\x7d"

/-- References to parameters and environment values become references to variables. -/
def shellValue (value : Text) : Text :=
  scriptReference.substitute (fun m => Text.Shell.expansion (m.captured 1)) value

def providedRemark (name : Text) : Text := name ++ ": provided as a CI/CD variable (see below)"

def environmentEntry (secrets : List Text) (name value : Text) : VariableEntry :=
  if secrets.contains name then .withheld (providedRemark name)
  else if looksSecret name then .withheld (removedRemark "literal" name)
  else .plain name (shellValue value)

/-- The parameters, of several with one name the first. -/
def ownParameters (f : FeatureSet) : List (Text × Parameter) :=
  Keyed.firstOfPairs (f.parameters.map fun p => (p.name, p))

/-- The environment entries that no parameter shadows. -/
def ownEnvironment (f : FeatureSet) : List (Text × Text) :=
  (Keyed.firstOfPairs f.environment).filter fun (name, _) => !Keyed.has name (ownParameters f)

/-- The variables of the tool that neither a parameter nor the environment shadows. -/
def ownToolVariables (f : FeatureSet) (tool : BuildTool) : List (Text × Text) :=
  (Keyed.firstOfPairs tool.assignments).filter fun (name, _) =>
    !Keyed.has name (ownParameters f) && !Keyed.has name f.environment

def sourceEntries (f : FeatureSet) (secrets : List Text) (tool : BuildTool) :
    List VariableEntry :=
  (ownParameters f).map (fun (_, p) => parameterEntry secrets p) ++
    (ownEnvironment f).map (fun (name, value) => environmentEntry secrets name value) ++
    (ownToolVariables f tool).map fun (name, value) => .plain name value

def secretsRemark : Text :=
  "Secrets: create these under Settings > CI/CD > Variables; never commit values."

def unclearRemark (v : VariableSpec) : Text :=
  Job.review <| v.key ++ ": type could not be inferred for '" ++ v.sourceId ++
    "'; confirm masking and variable type."

def creationRemark (v : VariableSpec) : Text :=
  v.key ++ ": " ++ v.placeholder ++ " (" ++ v.flags ++ ", scope " ++ v.scope ++ ")"

/-- What to do for a planned variable; one of the generic kind wants a second look. -/
def secretEntries (generic : Text) (v : VariableSpec) : List VariableEntry :=
  (if v.classifier == generic then [.withheld (unclearRemark v)] else []) ++
    [.withheld (creationRemark v)]

def variableEntries (f : FeatureSet) (specs : List VariableSpec) (tool : BuildTool)
    (generic : Text) : List VariableEntry :=
  sourceEntries f (secretNames specs) tool ++
    if specs.isEmpty then []
    else .withheld secretsRemark :: specs.flatMap (secretEntries generic)

/-- A section of comments alone would not be a mapping, so then an empty one stands before them. -/
def variableSection (entries : List VariableEntry) : List Text :=
  if entries.isEmpty then []
  else
    let lines := entries.flatMap (·.lines)
    if entries.all (·.isWithheld) then "variables: \x7b\x7d".toList :: lines.map Text.trim
    else "variables:".toList :: lines

end PipelineMigration.Configuration
