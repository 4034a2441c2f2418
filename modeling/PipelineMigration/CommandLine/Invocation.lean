import PipelineMigration.CommandLine.Report
import PipelineMigration.CommandLine.Session
import PipelineMigration.CommandLine.Scan
set_option autoImplicit false

/- Whole command lines: which command is meant, with what, and how it ends. -/
namespace PipelineMigration.CommandLine

/-- What the words of a command ask for. -/
inductive Asked (α : Type) where
  | help
  | version
  | order (order : α)

/-- A word among the options that asks for something else than the command. -/
def aside? (a : Arguments) : Option (Asked Empty) :=
  a.options.findSome? fun (name, _) =>
    if name == "help".toList then some .help
    else if name == "version".toList then some .version
    else none

/-- Takes a command's words apart and reads an order from them. -/
def askedOf {α : Type} (form : CommandForm) (order : Arguments → Except UsageFault α)
    (words : List Text) : Except UsageFault (Asked α) := do
  let a ← form.take words
  match aside? a with
  | some .version => pure .version
  | some .help => pure .help
  | none => pure (.order (← order a))

def option (name : String) (letter : Option Char) : OptionForm := { name, letter }
def switch (name : String) (letter : Option Char) : OptionForm :=
  { name, letter, takesValue := false }
def helpSwitch : OptionForm := switch "help" none

/-- A whole number within bounds. -/
def wholeOption (name : String) (usual : Int) (least greatest : Option Int) (a : Arguments) :
    Except UsageFault Int :=
  match a.value? name with
  | none => .ok usual
  | some s => match Number.readInteger s with
    | .error _ => .error .invalidValue
    | .ok n => if least.any (n < ·) || greatest.any (· < n) then .error .invalidValue else .ok n

def pathOption (name : String) (a : Arguments) : Option Path := (a.value? name).map Path.read

def scriptOf (a : Arguments) : Except UsageFault Path := do
  pure (Path.read ((← a.exactly 1).headD []))

def convertForm : CommandForm :=
  { options := [option "output" 'o', option "checklist" none, option "scope" none,
      switch "remote" none, switch "enrich" none, switch "dry-run" none, switch "yes" 'y',
      helpSwitch] }

def convertOrder (a : Arguments) : Except UsageFault ConvertOrder := do
  pure {
    script := ← scriptOf a, output := (pathOption "output" a).getD (Path.read ".gitlab-ci.yml")
    checklist := pathOption "checklist" a, scope := a.value? "scope", remote := a.has "remote"
    enrich := a.has "enrich", dryRun := a.has "dry-run", yes := a.has "yes" }

def capabilityForm : CommandForm :=
  { options := [option "checklist" none, switch "yes" 'y', helpSwitch] }

def capabilityOrder (a : Arguments) : Except UsageFault CapabilityOrder := do
  pure { script := ← scriptOf a, checklist := pathOption "checklist" a, yes := a.has "yes" }

def credentialForm : CommandForm :=
  { options := [option "scope" none, option "project-id" none, option "env-file" none,
      option "script" none, switch "live" none, option "batch-size" none, switch "yes" 'y',
      helpSwitch] }

def credentialOrder (a : Arguments) : Except UsageFault CredentialOrder := do
  pure {
    script := ← scriptOf a, scope := a.value? "scope", projectId := a.value? "project-id"
    envFile := pathOption "env-file" a, provisioning := pathOption "script" a
    live := a.has "live", batchSize := ← wholeOption "batch-size" 10 (some 1) (some 50) a
    yes := a.has "yes" }

def logForm : CommandForm := { options := [option "limit" 'n', helpSwitch] }

def logOrder (a : Arguments) : Except UsageFault Int := do
  let _ ← a.exactly 0
  wholeOption "limit" 10 none none a

/-- The form of words before a command's name. -/
def groupForm (options : List OptionForm) : CommandForm :=
  { options := options ++ [helpSwitch], mixed := false }

/-- The command's name with the words behind it. -/
def commandName (a : Arguments) : Except UsageFault (Text × List Text) :=
  match a.words with
  | [] => .error .missingCommand
  | name :: rest => .ok (name, rest)

variable {σ : Type}

/-- Runs an order unless the words ask for help or make no sense. -/
def perform {α : Type} (run : α → Command σ Unit) (asked : Except UsageFault (Asked α)) :
    Command σ Unit :=
  match asked with
  | .error _ => stop 2
  | .ok .help => pure ()
  | .ok .version => say ("Ferryman version ".toList ++ Service.version)
  | .ok (.order o) => run o

def noOptions : CommandForm := { options := [helpSwitch] }

def runPreferences (words : List Text) : Command σ Unit :=
  perform (fun (command : Text × List Text) =>
      let (name, rest) := command
      match String.ofList name with
      | "show" => perform (fun _ => showPreferences) (askedOf noOptions (·.exactly 0) rest)
      | "set" =>
        perform (fun ws => setPreference (ws.headD []) (ws.getD 1 []))
          (askedOf noOptions (·.exactly 2) rest)
      | "unset" =>
        perform (fun ws => unsetPreference (ws.headD []))
          (askedOf noOptions (·.exactly 1) rest)
      | _ => stop 2)
    (askedOf (groupForm []) commandName words)

def brokenFileAdvice : List Text := ["Fix or delete the file, then retry."]

/-- The commands that need readable preferences. -/
def runOther? (name : Text) (rest : List Text) : Option (Command σ Unit) :=
  match String.ofList name with
  | "convert" => some (perform ConvertOrder.run (askedOf convertForm convertOrder rest))
  | "plugins" => some (perform CapabilityOrder.run (askedOf capabilityForm capabilityOrder rest))
  | "credentials" =>
    some (perform CredentialOrder.run (askedOf credentialForm credentialOrder rest))
  | "history" => some (perform Log.run (askedOf logForm logOrder rest))
  | _ => none

def runCommand (command : Text × List Text) : Command σ Unit := do
  let (name, rest) := command
  if name = "config" then runPreferences rest
  else match runOther? name rest with
    | none => stop 2
    | some run => do
      let _ ← loadPreferences brokenFileAdvice
      run

/-- Runs a whole command line. -/
def runWords (words : List Text) : Command σ Unit :=
  perform runCommand (askedOf (groupForm [switch "version" 'v']) commandName words)

/-- How a command line ends, with what it shows, what it sends and the session afterwards. -/
structure Outcome (σ : Type) where
  exitCode : Nat
  breakdown : Option Breakdown
  shown : List Shown
  requests : List ServerRequest
  session : Session σ

/-- Runs a command line in a session. -/
def invoke (around : Surroundings σ) (words input : List Text) (s : Session σ) : Outcome σ :=
  let (result, s) := (runWords words around).run.run { s with input, shown := [], requests := [] }
  let (exitCode, breakdown) := match result with
    | .ok () => (0, none)
    | .error (.exit code) => (code, none)
    | .error (.breakdown cause) => (1, some cause)
  { exitCode, breakdown, shown := s.shown, requests := s.requests, session := s }

end PipelineMigration.CommandLine
