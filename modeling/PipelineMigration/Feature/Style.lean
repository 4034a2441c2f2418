import PipelineMigration.Feature.Basic
import PipelineMigration.Script.Bracket
set_option autoImplicit false

/- Which of the two forms a script is written in, and the libraries it loads. -/
namespace PipelineMigration.Feature

def declarativeRoot : Pattern := .lineStart ++ .blanks ++ "pipeline" ++ .blanks ++ "\x7b"

def scriptedRoot : Pattern :=
  .notAfter Script.isWordOrDot ++ "node" ++ .blanks ++
    .optional ("(" ++ .longest 0 (· != ')') ++ ")") ++ .blanks ++ "\x7b"

def style (s : Text) : PipelineStyle :=
  if declarativeRoot.occursIn s then .declarative
  else if scriptedRoot.occursIn s then .scripted
  else .unknown

/-- Whether the first root block of the style is closed. -/
def hasClosedRoot (s : Text) (style : PipelineStyle) : Bool :=
  let root := if style = .declarative then declarativeRoot else scriptedRoot
  match root.firstMatch s with
  | none => false
  | some m => (Script.enclosedLength '\x7b' '\x7d' m.after.ahead).isSome

def libraryCall : Pattern :=
  "@Library" ++ .blanks ++ "(" ++ .blanks ++ .capture 1 (.anyOf [
    "[" ++ .longest 0 (· != ']') ++ "]",
    .quoteMark ++ .longest 1 (fun c => !Text.isQuote c) ++ .quoteMark])

def libraryStep : Pattern :=
  .notAfter (fun c => c == '@' || Text.isWord c) ++ "library" ++ .blanks ++ .optional "(" ++
    .blanks ++ .optional ("identifier" ++ .blanks ++ ":" ++ .blanks) ++
    .quoteMark ++ .unquoted 1 ++ .quoteMark

def libraries (s : Text) : List Text :=
  Keyed.distinct <|
    ((libraryCall.allMatches s).flatMap fun m =>
      (Script.quotedValues (m.captured 1)).filter fun v => !v.isEmpty) ++
    (libraryStep.allMatches s).map (·.captured 1)

end PipelineMigration.Feature
