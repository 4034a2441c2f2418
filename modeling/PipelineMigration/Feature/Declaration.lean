import PipelineMigration.Feature.Basic
import PipelineMigration.Script.Bracket
import PipelineMigration.Text.Alphabet
set_option autoImplicit false

/- What a script declares: build parameters, where a call that declares one names it and the first
   declaration of a name counts; axes of a build matrix, each with its values that are not empty;
   and credentials bound by typed steps, in the order of the script. -/
namespace PipelineMigration.Feature

def parameterSteps : List (Text × ParameterKind) :=
  [("string", .string), ("booleanParam", .boolean), ("choice", .choice), ("text", .text),
    ("password", .password)]

def parameterCall : Pattern :=
  .edge ++ .capture 1 (.anyOf (parameterSteps.map (.exactly ·.1))) ++ .blanks ++ "("

def choiceList : Pattern :=
  "choices" ++ .blanks ++ ":" ++ .blanks ++ "[" ++ .capture 1 (.longest 0 (· != ']')) ++ "]"

/-- Choices from a list of literals, or one to a line of a single literal. -/
def parameterChoices (arguments : Text) (named : List (Text × Text)) : List Text :=
  match choiceList.firstMatch arguments with
  | some m => Script.quotedValues (m.captured 1)
  | none => match Keyed.get? "choices".toList named with
    | some s => ((Text.lines s).map Text.trim).filter fun c => !c.isEmpty
    | none => []

def parameterOf? (m : Match) : Option Parameter := do
  let arguments := Script.callArguments m
  let named := Script.namedArguments arguments
  let name ← Keyed.get? "name".toList named
  let kind ← Keyed.get? (m.captured 1) parameterSteps
  let given := (Keyed.get? "defaultValue".toList named).getD []
  let default : Text := match kind with
    | .boolean => if given.isEmpty then "false" else given
    | .choice => []
    | _ => given
  let choices := if kind = .choice then parameterChoices arguments named else []
  let description := (Keyed.get? "description".toList named).getD []
  if name.isEmpty then none else some { name, kind, default, description, choices }

def parameters (s : Text) : List Parameter :=
  (Keyed.firstOfPairs (((parameterCall.allMatches s).filterMap parameterOf?).map
    fun p => (p.name, p))).map (·.2)

def axisName : Pattern :=
  .edge ++ "name" ++ .longest 1 Text.isBlank ++ .quoteMark ++ .unquoted 1 ++ .quoteMark

def axisValues : Pattern :=
  .edge ++ "values" ++ .longest 1 Text.isBlank ++ .capture 1 (.several (
    .quoteMark ++ .longest 0 (fun c => !Text.isQuote c) ++ .quoteMark ++ .blanks ++
      .optional "," ++ .blanks))

def axis? (body : Text) : Option (Text × List Text) := do
  let name ← axisName.firstMatch body
  let values ← axisValues.firstMatch body
  let found := (Script.quotedValues (values.captured 1)).filter fun v => !v.isEmpty
  if found.isEmpty then none else some (name.captured 1, found)

def matrix (s : Text) : List (Text × List Text) :=
  Keyed.firstOfPairs <| (Script.blocks "matrix" s).flatMap fun m =>
    (Script.blocks "axis" m.body).filterMap fun a => axis? a.body

def typedForms : List BindingForm :=
  [.usernamePassword, .sshUserPrivateKey, .certificate, .string, .file]

def bindingCall : Pattern :=
  .edge ++ .capture 1 (.anyOf (typedForms.map (.exactly ·.name))) ++ .blanks ++ "("

def namesVariable (argument : Text) : Bool :=
  argument = "variable" || "Variable".toList.isSuffixOf argument

def bindingOf? (m : Match) : Option CredentialBinding := do
  let named := Script.namedArguments (Script.callArguments m)
  let sourceId ← Keyed.get? "credentialsId".toList named
  let form ← BindingForm.ofName? (m.captured 1)
  if sourceId.isEmpty then none
  else some ⟨sourceId, form, named.filter fun (argument, _) => namesVariable argument⟩

def credentialBindings (s : Text) : List CredentialBinding :=
  (bindingCall.allMatches s).filterMap bindingOf?

/- Environment assignments: `NAME = value` lines of environment blocks, and `NAME=value` literals
   of `withEnv` lists. A credential lookup on the right is a binding and no literal. -/

def identifierPattern : Pattern :=
  .one Text.isIdentifierStart ++ .longest 0 Text.isIdentifierRest

def assignmentLine : Pattern :=
  .lineStart ++ .blanks ++ .capture 1 identifierPattern ++ .blanks ++ "=" ++ .blanks ++
    .capture 2 (.shortest 1 (· != '\n')) ++ .blanks ++ .optional ";" ++ .blanks ++ .lineEnd

def credentialLookup : Pattern :=
  "credentials(" ++ .blanks ++ .quoteMark ++ .unquoted 1 ++ .quoteMark ++ .blanks ++ ")" ++
    .textEnd

def environmentList : Pattern :=
  .edge ++ "withEnv" ++ .blanks ++ "(" ++ .blanks ++ "[" ++
    .capture 1 (.longest 0 (· != ']')) ++ "]"

/-- The text between equal quote marks at both ends. -/
def unquote? : Text → Option Text
  | mark :: r => if Text.isQuote mark && r.getLast? == some mark then some r.dropLast else none
  | [] => none

/-- The assignments of environment blocks, names with what stands on the right. -/
def assignments (s : Text) : List (Text × Text) :=
  (Script.blocks "environment" s).flatMap fun b =>
    (assignmentLine.allMatches b.body).map fun m => (m.captured 1, m.captured 2)

def lookedUp? (raw : Text) : Option Text := (credentialLookup.matchStart raw).map (·.captured 1)

def listedAssignments (s : Text) : List (Text × Text) :=
  ((environmentList.allMatches s).flatMap fun m => Script.quotedValues (m.captured 1)).filterMap
    fun item => (Text.splitOnce "=" item).filter fun (name, _) => Text.isIdentifier name

/-- Literal values, each name with its first one. -/
def environment (s : Text) : List (Text × Text) :=
  let literals := (assignments s).filterMap fun (name, raw) =>
    if (lookedUp? raw).isSome then none else (unquote? raw).map fun value => (name, value)
  Keyed.firstOfPairs (literals ++ listedAssignments s)

def environmentBindings (s : Text) : List CredentialBinding :=
  (assignments s).filterMap fun (name, raw) =>
    (lookedUp? raw).map fun id => ⟨id, .environment, [("variable", name)]⟩

/-- Every assignment but credential lookups, a value without quotes standing for itself. -/
def roughEnvironment (s : Text) : List (Text × Text) :=
  Keyed.firstOfPairs <| ((assignments s).filter fun a => (lookedUp? a.2).isNone).map
    fun (name, raw) => (name, (unquote? raw).getD raw)

end PipelineMigration.Feature
