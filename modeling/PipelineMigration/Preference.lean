import PipelineMigration.Json.Reader
import PipelineMigration.Json.Writer
set_option autoImplicit false

/- Preferences that a user keeps in a file of their own. The known ones are brought into a usual
   form before they are kept; any other is kept as it is given. -/
namespace PipelineMigration

inductive KnownPreference where
  | serverUrl | environmentScope | projectId
deriving DecidableEq

inductive PreferenceError where
  | invalidServerUrl (given : Text)
  | blankScope
  | invalidProject (given : Text)
  | unreadable (fault : JsonFault)
  | notAnObject
  /-- The file holds a number that is too long to read. -/
  | integer (error : Number.IntegerError)
  /-- A known preference is given something else than a text. -/
  | notText (kind : Text)
deriving DecidableEq

/-- The message about a file at a path. -/
def PreferenceError.message (path : Text) : PreferenceError → Text
  | invalidServerUrl given => "server_url must be an http(s) URL, got " ++ given.display
  | blankScope => "environment_scope must not be blank"
  | invalidProject given =>
    "project_id must be a number or a namespace/project path, got " ++ given.display
  | unreadable fault => "Config file is not valid JSON (" ++ fault.message ++ "): " ++ path
  | notAnObject => "Config file must hold a JSON object: ".toList ++ path
  | integer error => error.message
  | notText kind => "'" ++ kind ++ "' object has no attribute 'strip'"

namespace KnownPreference

def all : List KnownPreference := [serverUrl, environmentScope, projectId]

def name : KnownPreference → Text
  | serverUrl => "server_url"
  | environmentScope => "environment_scope"
  | projectId => "project_id"

def ofName? (s : Text) : Option KnownPreference := all.find? (·.name == s)

def isSlash (c : Char) : Bool := c == '/'

/-- A scheme of the web with something before the first slash or blank. -/
def isWebAddress (s : Text) : Bool :=
  ["http://".toList, "https://".toList].any fun scheme =>
    scheme.isPrefixOf s && match s.drop scheme.length with
      | [] => false
      | c :: _ => !isSlash c && !Text.isBlank c

def isPathCharacter (c : Char) : Bool := Text.isWord c || c == '.' || c == '-'

/-- Digits alone, or two names and more with slashes between. -/
def isProject (s : Text) : Bool :=
  (!s.isEmpty && s.all Text.isDecimal) ||
    (let names := Text.splitWhere isSlash s
     1 < names.length && names.all fun n => !n.isEmpty && n.all isPathCharacter)

/-- The usual form of a value. -/
def normalize (key : KnownPreference) (given : Text) : Except PreferenceError Text :=
  match key with
  | serverUrl =>
    let address := Text.trimRightBy isSlash (Text.trim given)
    if isWebAddress address then .ok address else .error (.invalidServerUrl given)
  | environmentScope =>
    let scope := Text.trim given
    if scope.isEmpty then .error .blankScope else .ok scope
  | projectId =>
    let project := Text.trimBy isSlash (Text.trim given)
    if isProject project then .ok project else .error (.invalidProject given)

/-- What counts while the preference is not kept. -/
def usual? : KnownPreference → Option Text
  | serverUrl => some "http://localhost:8000"
  | environmentScope => some "*"
  | projectId => none

end KnownPreference

abbrev Preferences := List (Text × Json)

namespace Preferences

/-- The form in which a value is kept under a key. -/
def stored (key : Text) (given : Json) : Except PreferenceError Json :=
  match KnownPreference.ofName? key, given with
  | none, v => .ok v
  | some known, .string s => (known.normalize s).map Json.string
  | some _, v => .error (.notText v.kindName)

def read (content : Text) : Except PreferenceError Preferences :=
  match Json.read content with
  | .ok (.object members) => .ok members
  | .ok _ => .error .notAnObject
  | .error e => match e.fault with
    | .integer error => .error (.integer error)
    | fault => .error (.unreadable fault)

def written (p : Preferences) : Text := (Json.object p).pretty

end Preferences

/-- The file's content, nothing while there is no file. -/
abbrev PreferenceFile := Option Text

namespace PreferenceFile

def load : PreferenceFile → Except PreferenceError Preferences
  | none => .ok []
  | some content => Preferences.read content

def get (key : Text) (default : Json) (file : PreferenceFile) : Except PreferenceError Json :=
  (load file).map fun p => (Keyed.get? key p).getD default

/-- Keeps a value and tells its kept form. A failure leaves the file as it was. -/
def set (key : Text) (given : Json) (file : PreferenceFile) :
    Except PreferenceError (Json × PreferenceFile) := do
  let value ← Preferences.stored key given
  let p ← load file
  pure (value, some (Preferences.written (Keyed.put key value p)))

/-- Forgets a value and tells whether it was kept. -/
def unset (key : Text) (file : PreferenceFile) :
    Except PreferenceError (Bool × PreferenceFile) := do
  let p ← load file
  if Keyed.has key p then pure (true, some (Preferences.written (Keyed.drop key p)))
  else pure (false, file)

end PreferenceFile
end PipelineMigration
