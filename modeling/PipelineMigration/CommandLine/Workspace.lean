import PipelineMigration.Keyed
import PipelineMigration.Text.Basic
set_option autoImplicit false

/- The files that commands read and write, by their paths from the working directory. -/
namespace PipelineMigration.CommandLine

/-- A path without empty steps and steps that stay. -/
structure Path where
  absolute : Bool := false
  steps : List Text
deriving DecidableEq

namespace Path

def isSeparator (c : Char) : Bool := c == '/'

def read (s : Text) : Path :=
  { absolute := s.head?.any isSeparator
    steps := (Text.splitWhere isSeparator s).filter fun t => !t.isEmpty && t != ['.'] }

def text (p : Path) : Text :=
  let body := Text.join "/" p.steps
  if p.absolute then '/' :: body else if body.isEmpty then "." else body

/-- The last step. -/
def name (p : Path) : Text := p.steps.getLast?.getD []

end Path

/-- A file; its content is nothing where it is no text. -/
structure File where
  content : Option Text
  executable : Bool := false
deriving DecidableEq

/-- Steps from the working directory, or from the root when the first is a slash. -/
abbrev Place := List Text

structure Workspace where
  files : List (Place × File) := []
  directories : List Place := []

/-- What lies at a path. -/
inductive Found where
  | file (file : File)
  | directory
  | nothing

namespace Workspace

def isDirectory (w : Workspace) (place : Place) : Bool :=
  place.isEmpty || w.directories.contains place

/-- Follows steps through directories. -/
def follow (w : Workspace) (place : Place) : List Text → Option Place
  | [] => some place
  | step :: rest =>
    if !w.isDirectory place then none
    else if step == "..".toList then
      w.follow (if place.isEmpty then [step] else place.dropLast) rest
    else w.follow (place ++ [step]) rest

/-- Where a path leads, whether or not something is there. -/
def place? (w : Workspace) (p : Path) : Option Place :=
  if p.absolute then match p.steps with
    | [] => some [['/']]
    | _ => if w.isDirectory [['/']] then w.follow [['/']] p.steps else none
  else w.follow [] p.steps

def find (w : Workspace) (p : Path) : Found :=
  match w.place? p with
  | none => .nothing
  | some place => match Keyed.get? place w.files with
    | some file => .file file
    | none => if w.isDirectory place then .directory else .nothing

/-- Writes a text over what a file held; nothing comes of it where no file can be. A file keeps
    its permissions. -/
def write? (w : Workspace) (p : Path) (content : Text) : Option Workspace := do
  let place ← w.place? p
  if w.isDirectory place || !w.isDirectory place.dropLast then none
  else
    let executable := ((Keyed.get? place w.files).map (·.executable)).getD false
    some { w with files := Keyed.put place { content := some content, executable } w.files }

def allowRunning (w : Workspace) (p : Path) : Workspace :=
  match w.place? p with
  | none => w
  | some place => match Keyed.get? place w.files with
    | some file => { w with files := Keyed.put place { file with executable := true } w.files }
    | none => w

/-- The files that are new or different in the later of two workspaces. -/
def changes (before after : Workspace) : List (Place × File) :=
  after.files.filter fun (place, file) => Keyed.get? place before.files != some file

end Workspace

/-- Every end of line in its short form. -/
def shortLineEnds : Text → Text
  | [] => []
  | '\r' :: '\n' :: r => '\n' :: shortLineEnds r
  | '\r' :: r => '\n' :: shortLineEnds r
  | c :: r => c :: shortLineEnds r

end PipelineMigration.CommandLine
