import PipelineMigration.Capability.Catalog
import PipelineMigration.Capability.Signature
import PipelineMigration.Text.Alphabet
import PipelineMigration.Text.LetterCase
set_option autoImplicit false

/- Names that open blocks or calls without being capabilities: keywords, the structure of a
   pipeline, closures, shell tools and common directories. They are compared in small letters. -/
namespace PipelineMigration.Capability

def keywordNames : List Text :=
  ["if", "else", "for", "while", "try", "catch", "finally", "switch", "case", "def", "var", "let",
    "const", "function", "return", "class", "static", "true", "false", "null", "undefined",
    "string", "number", "echo", "print", "println", "log", "error", "warn", "info", "debug"]

def structureNames : List Text :=
  ["pipeline", "agent", "node", "stage", "stages", "steps", "step", "script", "post", "always",
    "success", "failure", "unstable", "aborted", "changed", "fixed", "regression", "cleanup",
    "properties", "parameters", "triggers", "when", "not", "branch", "environment", "tools",
    "options", "input"]

def conditionNames : List Text :=
  ["matrix", "axes", "axis", "exclude", "excludes", "parallel",
    "expression", "allof", "anyof", "changerequest", "buildingtag", "tag", "dir", "ws",
    "container", "label", "dockerfile", "kubernetes", "any", "none", "unsuccessful", "notbuilt",
    "libraries", "catcherror", "withenv", "inside"]

def closureNames : List Text :=
  ["each", "eachwithindex", "collect", "find", "findall", "with", "times", "it"]

def shellNames : List Text :=
  ["sh", "bat", "powershell", "pwsh", "cmd", "npm", "mvn", "gradle", "make", "cmake", "docker",
    "kubectl", "helm", "python", "pip", "git", "curl"]

def directoryNames : List Text :=
  ["src", "test", "build", "target", "dist", "bin", "lib", "config"]

def excludedNames : List Text :=
  keywordNames ++ structureNames ++ conditionNames ++ closureNames ++ shellNames ++
    directoryNames

def isExcluded (excluded : List Text) (name : Text) : Bool := excluded.contains name.lower

/- Uses of capabilities in a script, line by line. Lines that begin as comments are passed over,
   and a name that the any-block signature catches must be neither too short, too long nor
   excluded. -/

/-- The tables that names and capabilities are looked up in. -/
structure Tables where
  signatures : List Signature := Signature.all
  aliases : List (Text × Text) := Capability.aliases
  catalog : List (Text × CompatibilityEntry) := Capability.catalog
  excluded : List Text := excludedNames

namespace Tables

/-- The capability that a name stands for. -/
def canonical (t : Tables) (name : Text) : Text :=
  let small := (Text.trim name).lower
  (Keyed.get? small t.aliases).getD small

def isCandidate (t : Tables) (name : Text) : Bool :=
  2 ≤ name.length && name.length ≤ 50 && !isExcluded t.excluded name

def hitOf? (t : Tables) (line : Nat) (signature : Signature) (m : Match) : Option CapabilityHit :=
  let hit (name : Text) : CapabilityHit :=
    ⟨t.canonical name, line, Text.trim m.text, signature.confidence⟩
  match signature.target with
  | .fixed id => some (hit id)
  | .named => if t.isCandidate (m.captured 1) then some (hit (m.captured 1)) else none

def hitsInLine (t : Tables) (line : Text) (number : Nat) : List CapabilityHit :=
  t.signatures.flatMap fun signature =>
    (signature.pattern.allMatches line).filterMap (t.hitOf? number signature)

end Tables

def commentMarks : List Text := ["//", "#", "/*", "*"]

/-- Lines that hold nothing, or begin as a comment does. -/
def isIdle (line : Text) : Bool :=
  let body := Text.trim line
  body.isEmpty || commentMarks.any (·.isPrefixOf body)

/-- Every use, line by line and signature by signature. -/
def scanAll (t : Tables) (script : Text) : List CapabilityHit :=
  (Text.lines script).zipIdx.flatMap fun (line, i) =>
    if isIdle line then [] else t.hitsInLine line (i + 1)

/-- By line, then by capability. -/
def hitOrder (a b : CapabilityHit) : Bool :=
  a.line < b.line || (a.line == b.line && Text.notAfter a.id b.id)

/-- The first use of each capability. -/
def scan (t : Tables) (script : Text) : List CapabilityHit :=
  ((Keyed.firstOfPairs ((scanAll t script).map fun h => (h.id, h))).map (·.2)).mergeSort hitOrder

end PipelineMigration.Capability
