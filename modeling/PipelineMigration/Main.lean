import PipelineMigration.CommandLine.Invocation
import PipelineMigration.CommandLine.Server
import PipelineMigration.Timestamp
import Std.Time.DateTime.Timestamp
set_option autoImplicit false

/- The command line at a terminal. Commands are worked out over what the files held at first; what
   they show is printed, and what they change is written back. -/
namespace PipelineMigration.CommandLine.Console

/-- The tags of markup that texts hold. -/
def tags : List String :=
  ["red", "green", "yellow", "cyan", "dim", "bold"].flatMap fun t =>
    ["[" ++ t ++ "]", "[/" ++ t ++ "]"]

def withoutMarkup (s : Text) : String :=
  tags.foldl (fun s tag => s.replace tag "") (String.ofList s)

def cells (row : List Text) : String := " | ".intercalate (row.map withoutMarkup)

def rendered : Shown → List String
  | .line s => [withoutMarkup s]
  | .table title headers rows => withoutMarkup title :: cells headers :: rows.map cells
  | .panel title content => [String.ofList title, String.ofList content]
  | .question s => [String.ofList s ++ " [y/N]:"]

/-- Whether something lies at a path. -/
def isThere (path : String) : IO Bool := do
  try
    let _ ← IO.FS.realPath path
    pure true
  catch _ => pure false

/-- The file at a path, unless it cannot be read as one. -/
def fileAt (path : String) : IO (Option File) := do
  try
    let bytes ← IO.FS.readBinFile path
    pure (some { content := (String.fromUTF8? bytes).map String.toList })
  catch _ => pure none

def placeOf (p : Path) : Place := if p.absolute then ['/'] :: p.steps else p.steps

def pathOf (place : Place) : String :=
  match place with
  | ['/'] :: rest => "/" ++ "/".intercalate (rest.map String.ofList)
  | steps => "/".intercalate (steps.map String.ofList)

/-- Adds what lies at a path and above it. -/
def explore (w : Workspace) (p : Path) : IO Workspace := do
  let place := placeOf p
  let above ← ((List.range place.length).map place.take).filterM fun d => isThere (pathOf d)
  let w := { w with directories := w.directories ++ above }
  if place.isEmpty || !(← isThere (pathOf place)) then pure w
  else match ← fileAt (pathOf place) with
    | some file => pure { w with files := Keyed.put place file w.files }
    | none => pure { w with directories := w.directories ++ [place] }

/-- What lies at every path that the words of a command line may name. -/
def exploreWords (words : List Text) : IO Workspace := do
  let values := words.filterMap fun w => (Text.splitOnce "=" w).map (·.2)
  (words ++ values ++ [".gitlab-ci.yml".toList]).foldlM (fun w s => explore w (Path.read s)) {}

def runnable : IO.FileRight :=
  { user := { read := true, write := true, execution := true }
    group := { read := true, execution := true }
    other := { read := true, execution := true } }

def writeBack (place : Place) (file : File) : IO Unit := do
  match file.content with
  | none => pure ()
  | some content =>
    IO.FS.writeFile (pathOf place) (String.ofList content)
    if file.executable then IO.setAccessRights (pathOf place) runnable

/-- Whether a command line ended because an answer to its last question was wanting. -/
def isWaiting (o : Outcome Unit) : Bool :=
  o.exitCode == 1 && match o.shown.getLast? with
    | some (.question _) => true
    | _ => false

/-- Works a command line out with the answers so far, asks for another where one is wanting, and
    prints what was not printed before. -/
partial def converse (around : Surroundings Unit) (words : List Text) (s : Session Unit)
    (answers : List Text) (printed : Nat) : IO (Outcome Unit) := do
  let o := invoke around words answers s
  (o.shown.drop printed).forM fun item => (rendered item).forM IO.println
  let line ← if isWaiting o then (← IO.getStdin).getLine else pure ""
  if line.isEmpty then pure o
  else converse around words s (answers ++ [(line.trimAsciiEnd.toString).toList]) o.shown.length

def directory (home : String) : String := home ++ "/.config/ferryman"

def start (words : List Text) : IO UInt32 := do
  let home := (← IO.getEnv "HOME").getD "."
  let preferencePath := directory home ++ "/config.json"
  let kept ← fileAt preferencePath
  let now ← Std.Time.Timestamp.now
  let workspace ← exploreWords words
  let around : Surroundings Unit := {
    preferencePath := preferencePath.toList, respond := Server.absent "no connection is available"
    stamp := (PipelineMigration.Timestamp.ofUnixSeconds
      now.toSecondsSinceUnixEpoch.val.toNat).secondsText }
  let s : Session Unit := { workspace, preferences := kept.bind (·.content), server := () }
  let o ← converse around words s [] 0
  (workspace.changes o.session.workspace).forM fun (place, file) => writeBack place file
  if o.session.preferences != s.preferences then
    if let some content := o.session.preferences then
      IO.FS.createDirAll (directory home)
      IO.FS.writeFile preferencePath (String.ofList content)
  if let some cause := o.breakdown then IO.eprintln (String.ofList cause.message)
  pure (UInt32.ofNat o.exitCode)

end PipelineMigration.CommandLine.Console

def main (args : List String) : IO UInt32 :=
  PipelineMigration.CommandLine.Console.start (args.map String.toList)
