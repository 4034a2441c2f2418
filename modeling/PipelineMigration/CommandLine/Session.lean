import PipelineMigration.CommandLine.Argument
import PipelineMigration.CommandLine.Workspace
import PipelineMigration.Migration
import PipelineMigration.Preference
set_option autoImplicit false

/- What a command works in: files, preferences, the answers typed in, a server, and the screen. -/
namespace PipelineMigration.CommandLine

/-- What a command shows. Texts may hold markup. -/
inductive Shown where
  | line (markup : Text)
  | table (title : Text) (headers : List Text) (rows : List (List Text))
  | panel (title content : Text)
  | question (text : Text)
deriving DecidableEq

structure ServerRequest where
  method : Text
  path : Text
  query : List (Text × Text) := []
  body : Option Json := none

inductive ServerReply where
  | unreachable (reason : Text)
  | answered (status : Nat) (body : Text)

/-- What a report of the server is not like. -/
inductive ReportFault where
  | notJson (fault : JsonFault) (line column position : Nat)
  | noMember (name : Text)
  | noMembers (kind : Text)
  | noItems (kind : Text)
  | noParts (kind : Text)
  | noSize (kind : Text)
  | noPercentage (kind : Text)
  | noCell (kind : Text)
  | noText (kind : Text)
deriving DecidableEq

namespace ReportFault

/-- Why a value of a kind has no members by name. -/
def noMembersMessage (kind : Text) : Text :=
  if kind = "list" then "list indices must be integers or slices, not str"
  else if kind = "str" then "string indices must be integers, not 'str'"
  else "'" ++ kind ++ "' object is not subscriptable"

def message : ReportFault → Text
  | notJson fault line column position => fault.message ++ ": line " ++ Text.ofNat line ++
      " column " ++ Text.ofNat column ++ " (char " ++ Text.ofNat position ++ ")"
  | noMember name => name.display
  | noMembers kind => noMembersMessage kind
  | noItems kind => "'" ++ kind ++ "' object is not iterable"
  | noParts kind => "argument of type '" ++ kind ++ "' is not iterable"
  | noSize kind => "object of type '" ++ kind ++ "' has no len()"
  | noPercentage kind =>
    if kind = "str" then "Unknown format code '%' for object of type 'str'"
    else "unsupported format string passed to " ++ kind ++ ".__format__"
  | noCell kind =>
    "unable to render " ++ kind ++ "; a string or other renderable object is required"
  | noText kind => "data must be str, not ".toList ++ kind

end ReportFault

/-- What a command did not expect. -/
inductive Breakdown where
  | integer (error : Number.IntegerError)
  | migration (error : MigrationError)
  | report (fault : ReportFault)
deriving DecidableEq

def Breakdown.message : Breakdown → Text
  | integer error => error.message
  | migration error => error.message
  | report fault => fault.message

/-- How a command ends before its time. -/
inductive Halt where
  | exit (code : Nat)
  | breakdown (cause : Breakdown)
deriving DecidableEq

/-- The state of a session with a server of states `σ`. -/
structure Session (σ : Type) where
  workspace : Workspace := {}
  preferences : PreferenceFile := none
  /-- The lines that are still to be read. -/
  input : List Text := []
  server : σ
  shown : List Shown := []
  requests : List ServerRequest := []

/-- What surrounds a session: where preferences are kept, how the server answers, and the time
    that configurations bear. -/
structure Surroundings (σ : Type) where
  preferencePath : Text
  respond : ServerRequest → σ → ServerReply × σ
  stamp : Text

/-- A command run in a session; what was done stays done when it halts. -/
abbrev Command (σ : Type) := ReaderT (Surroundings σ) (ExceptT Halt (StateM (Session σ)))

variable {σ : Type}

def display (item : Shown) : Command σ Unit :=
  modify fun s => { s with shown := s.shown ++ [item] }

def say (markup : Text) : Command σ Unit := display (.line markup)

def stop {α : Type} (code : Nat) : Command σ α := throw (.exit code)

def fail {α : Type} (markup : Text) : Command σ α := do
  say markup
  stop 1

def breakDown {α : Type} (cause : Breakdown) : Command σ α := throw (.breakdown cause)

/-- Goes on with a value of a report, or breaks down. -/
def expect {α : Type} (value : Except ReportFault α) : Command σ α :=
  match value with
  | .ok a => pure a
  | .error fault => breakDown (.report fault)

def red (s : Text) : Text := "[red]" ++ s ++ "[/red]"

/-- Tells why a script cannot be migrated, or breaks down over anything else. -/
def failMigration {α : Type} : MigrationError → Command σ α
  | .integer e => breakDown (.migration (.integer e))
  | .lint f => breakDown (.migration (.lint f))
  | e => fail (red e.message)

/-- The next line typed in; without one the command ends. -/
def typedLine : Command σ Text := do
  match (← get).input with
  | [] => stop 1
  | line :: rest =>
    modify fun s => { s with input := rest }
    pure line

/-- Reads lines until one says yes or no; an empty one says no. The fuel bounds the lines. -/
def typedAnswer : Nat → Command σ Bool
  | 0 => stop 1
  | fuel + 1 => do
    let word := Text.trim (Text.lower (← typedLine))
    if word = "y" ∨ word = "yes" then pure true
    else if word = "n" ∨ word = "no" ∨ word.isEmpty then pure false
    else typedAnswer fuel

def confirm (question : Text) : Command σ Bool := do
  display (.question question)
  typedAnswer ((← get).input.length + 1)

/-! Files -/

/-- The text of a script. -/
def readScript (p : Path) : Command σ Text := do
  match (← get).workspace.find p with
  | .nothing => fail ("[red]File not found:[/red] ".toList ++ p.text)
  | .file { content := some s, .. } => pure (shortLineEnds s)
  | _ => fail "[red]Failed to read file:[/red]"

/-- Whether something lies at a path. -/
def present (p : Path) : Command σ Bool := do
  match (← get).workspace.find p with
  | .nothing => pure false
  | _ => pure true

def writeNow (p : Path) (content : Text) : Command σ Unit := do
  match (← get).workspace.write? p content with
  | none => fail "[red]Failed to write file:[/red]"
  | some w =>
    modify fun s => { s with workspace := w }
    say ("[green]✓[/green] Wrote ".toList ++ p.text)

/-- Writes a file, asking first when it would write over another and `yes` is not given; tells
    whether it was written. -/
def writeOutput (p : Path) (content : Command σ Text) (yes : Bool) : Command σ Bool := do
  let agreed ← if !yes && (← present p) then confirm ("Overwrite " ++ p.text ++ "?") else pure true
  if agreed then
    writeNow p (← content)
    pure true
  else
    say ("[yellow]Skipped[/yellow] ".toList ++ p.text)
    pure false

/-! Preferences -/

/-- Goes on with what the preferences say; a fault that is not of their form breaks down. -/
def withPreferences {α : Type} (said : Except PreferenceError α) (advice : List Text) :
    Command σ α := do
  match said with
  | .ok a => pure a
  | .error (.integer e) => breakDown (.integer e)
  | .error e =>
    say (red (e.message (← read).preferencePath))
    advice.forM say
    stop 1

def loadPreferences (advice : List Text) : Command σ Preferences := do
  withPreferences (PreferenceFile.load (← get).preferences) advice

/-- A preference as a text. -/
def preference (key : KnownPreference) (otherwise : Text) : Command σ Text := do
  let v ← withPreferences ((← get).preferences.get key.name (.string otherwise)) []
  pure v.plain

/-- The given text unless it is missing or empty. -/
def givenOr (given : Option Text) (otherwise : Command σ Text) : Command σ Text :=
  match given.filter fun s => !s.isEmpty with
  | some s => pure s
  | none => otherwise

def serverUrl : Command σ Text := preference .serverUrl (KnownPreference.serverUrl.usual?.getD [])
def usualScope : Command σ Text :=
  preference .environmentScope (KnownPreference.environmentScope.usual?.getD [])

/-! The server -/

/-- Sends a request; without a reply the command ends. -/
def send (request : ServerRequest) : Command σ (Nat × Text) := do
  let s ← get
  let (reply, server) := (← read).respond request s.server
  set { s with server, requests := s.requests ++ [request] }
  match reply with
  | .answered status body => pure (status, body)
  | .unreachable reason =>
    say (red ("Unable to reach server at " ++ (← serverUrl) ++ "."))
    fail ("[dim]" ++ reason ++ "[/dim]")

/-- What the body of a refusal says. -/
def refusalText (body : Text) : Text :=
  match Json.readBody body with
  | .error _ => body
  | .ok v => match v.get? "detail", v.get? "message" with
    | some detail, _ => red detail.plain
    | none, some message => red message.plain
    | none, none => body

def failRequest {α : Type} (action : Text) (status : Nat) (body : Text) : Command σ α := do
  say (red ("Failed to " ++ action ++ " (" ++ Text.ofNat status ++ ")."))
  if !body.isEmpty then say (refusalText body)
  stop 1

/-- The line and the column, from 1, of a place in a text. -/
def lineAndColumn (s : Text) (position : Nat) : Nat × Nat :=
  let before := s.take position
  (before.count '\n' + 1, (before.reverse.takeWhile (· != '\n')).length + 1)

/-- The report in the body of a reply. -/
def reportOf (body : Text) : Command σ Json :=
  match Json.readBody body with
  | .ok v => pure v
  | .error e => match e.fault with
    | .integer error => breakDown (.integer error)
    | fault =>
      let (line, column) := lineAndColumn (Json.withoutMark body) e.position
      breakDown (.report (.notJson fault line column e.position))

/- Commands on preferences. -/

/-- The row of a known preference, where it is kept or has a usual value. -/
def knownRow? (p : Preferences) (key : KnownPreference) : Option (List Text) :=
  match Keyed.get? key.name p, key.usual? with
  | some v, _ => some [key.name, v.plain, "config file"]
  | none, some usual => some [key.name, usual, "default"]
  | none, none => none

def otherRows (p : Preferences) : List (List Text) :=
  ((p.filter fun (key, _) => (KnownPreference.ofName? key).isNone).mergeSort fun a b =>
    Text.notAfter a.1 b.1).map fun (key, v) => [key, v.plain, "unused"]

def fileLine : Command σ Text := do
  pure ("Config file: [dim]" ++ (← read).preferencePath ++ "[/dim]")

def showPreferences : Command σ Unit := do
  let p ← loadPreferences []
  if p.isEmpty then say "[yellow]No configuration found; using defaults.[/yellow]"
  display (.table "Ferryman Configuration" ["Key", "Value", "Source"]
    (KnownPreference.all.filterMap (knownRow? p) ++ otherRows p))
  say ('\n' :: (← fileLine))

def knownNames : Text := Text.join ", " (KnownPreference.all.map (·.name))

def setPreference (key value : Text) : Command σ Unit := do
  if (KnownPreference.ofName? key).isNone then
    say ("[yellow]Unknown key " ++ key ++ "; known keys are " ++ knownNames ++ "[/yellow]")
  let (kept, file) ← withPreferences ((← get).preferences.set key (.string value)) []
  modify fun s => { s with preferences := file }
  say ("[green]✓[/green] Set [cyan]" ++ key ++ "[/cyan] = [green]" ++ kept.plain ++ "[/green]")
  say (← fileLine)

def unsetPreference (key : Text) : Command σ Unit := do
  let (wasKept, file) ← withPreferences ((← get).preferences.unset key) []
  modify fun s => { s with preferences := file }
  if wasKept then say ("[green]✓[/green] Removed [cyan]" ++ key ++ "[/cyan]")
  else say ("[yellow]" ++ key ++ " is not set[/yellow]")

end PipelineMigration.CommandLine
