import PipelineMigration.Text.LetterCase
set_option autoImplicit false

/- Names of jobs and variables made from the names in a script. -/
namespace PipelineMigration.Job

/-- Runs of characters outside the class become one `mark`. -/
def collapse (keep : Char → Bool) (mark : Char) : Text → Text
  | [] => []
  | c :: r =>
    let rest := collapse keep mark r
    if keep c then c :: rest
    else if r.head?.any fun d => !keep d then rest else mark :: rest

def isSlugChar (c : Char) : Bool := ('a' ≤ c && c ≤ 'z') || Text.isAsciiDigit c
def isVariableChar (c : Char) : Bool :=
  ('A' ≤ c && c ≤ 'Z') || Text.isAsciiDigit c || c == '_'

def slug (name : Text) : Text :=
  let s := Text.trimBy (· == '-') (collapse isSlugChar '-' name.lower)
  if s.isEmpty then "stage" else s

def variableName (name : Text) : Text :=
  let key := Text.trimBy (· == '_') (collapse isVariableChar '_' name.upper)
  if key.isEmpty || key.head?.any Text.isDigit then "VAR_".toList ++ key else key

/-- The slug itself or, while that is taken, the slug with the next number from 2. -/
def freshSlug (taken : List Text) (s : Text) : Text :=
  let numbered := (List.range taken.length).map fun i => s ++ '-' :: Text.ofNat (i + 2)
  ((s :: numbered).find? fun candidate => !taken.contains candidate).getD s

/-- Distinct slugs for names, in order. -/
def slugsFrom (taken : List Text) : List Text → List Text
  | [] => []
  | name :: rest =>
    let s := freshSlug taken (slug name)
    s :: slugsFrom (s :: taken) rest

end PipelineMigration.Job
