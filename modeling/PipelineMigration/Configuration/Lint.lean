import PipelineMigration.Yaml.Document
set_option autoImplicit false

/- Checks on a finished configuration: it is a mapping with stages and jobs, and each job has a
   declared stage, something to run, and needs that are jobs. -/
namespace PipelineMigration

structure LintReport where
  valid : Bool
  errors : List Text
deriving DecidableEq

/-- Why no report can be given. -/
inductive LintFault where
  /-- A scalar that is not what its tag says. -/
  | scalar (fault : Yaml.Fault)
  /-- A collection where a name is looked up. -/
  | unhashable (kind : String)
  /-- A value without items where a list is expected. -/
  | notIterable (kind : String)
  /-- A number too long to be shown. -/
  | tooLong
deriving DecidableEq

def LintFault.message : LintFault → Text
  | scalar fault => fault.message
  | unhashable kind => "unhashable type: '" ++ kind.toList ++ "'"
  | notIterable kind => "'" ++ kind.toList ++ "' object is not iterable"
  | tooLong => Number.IntegerError.tooLongToWrite.message

namespace Lint

open Yaml (Value Entries)

def reserved : List Text :=
  ["stages", "variables", "default", "include", "workflow", "image", "services", "cache",
    "before_script", "after_script"]

def get? (name : String) (entries : Entries) : Option Value :=
  (entries.find? fun (k, _) => k.same (.text name.toList)).map (·.2)

def shown (v : Value) : Except LintFault Text :=
  if v.isTooLong then .error .tooLong else .ok v.plain

def isReserved : Value → Bool
  | .text s => reserved.contains s
  | _ => false

/-- The entries of a job's body; a mention of the document itself stands for it. -/
def body? (document : Entries) : Value → Option Entries
  | .mapping entries => some entries
  | .recurrence true => some document
  | _ => none

abbrev Jobs := List (Value × Entries)

/-- The jobs of a document: mappings under names that are not reserved and not hidden by a dot. -/
def jobsOf (document : Entries) : Entries → Except LintFault Jobs
  | [] => .ok []
  | (name, v) :: rest =>
    if isReserved name then jobsOf document rest
    else do
      let text ← shown name
      let jobs ← jobsOf document rest
      match body? document v with
      | some entries => pure (if text.head? == some '.' then jobs else (name, entries) :: jobs)
      | none => pure jobs

def stagesOf (document : Entries) : List Value :=
  match get? "stages" document with
  | some (.list stages) => stages
  | _ => []

/-- Whether a value is among others; a collection cannot be looked up. -/
def isAmong (vs : List Value) (v : Value) : Except LintFault Bool :=
  match v.unhashable? with
  | some kind => .error (.unhashable kind)
  | none => .ok (vs.any fun w => w.same v)

/-- The stages that jobs may have. -/
def allowedStages (stages : List Value) : Except LintFault (List Value) :=
  match stages.findSome? Value.unhashable? with
  | some kind => .error (.unhashable kind)
  | none => .ok (stages ++ [.text ".pre", .text ".post"])

def needsOf (body : Entries) : Except LintFault (List Value) :=
  match get? "needs" body with
  | none => .ok []
  | some v => if v.isEmpty then .ok [] else match v.items? with
    | some items => .ok items
    | none => .error (.notIterable v.kindName)

/-- The job that an item of a needs list names. -/
def target : Value → Value
  | .mapping entries => (get? "job" entries).getD .null
  | .recurrence true => .null
  | v => v

def stageErrors (allowed : List Value) (name : Text) (body : Entries) :
    Except LintFault (List Text) := do
  let stage := (get? "stage" body).getD (.text "test")
  if ← isAmong allowed stage then pure []
  else do
    let shownStage ← shown stage
    pure ["Job " ++ name ++ " uses undeclared stage " ++ shownStage]

def scriptErrors (name : Text) (body : Entries) : List Text :=
  if (get? "script" body).isSome || (get? "trigger" body).isSome then []
  else ["Job " ++ name ++ " has no script"]

def needErrors (jobs : Jobs) (name : Text) : List Value → Except LintFault (List Text)
  | [] => .ok []
  | need :: rest => do
    let known ← isAmong (jobs.map (·.1)) (target need)
    let error ← if known then pure [] else do
      let shownTarget ← shown (target need)
      pure [("Job " ++ name ++ " needs unknown job " ++ shownTarget : Text)]
    let errors ← needErrors jobs name rest
    pure (error ++ errors)

def jobErrors (allowed : List Value) (jobs : Jobs) : Jobs → Except LintFault (List Text)
  | [] => .ok []
  | (name, body) :: rest => do
    let name ← shown name
    let stage ← stageErrors allowed name body
    let needs ← needErrors jobs name (← needsOf body)
    let errors ← jobErrors allowed jobs rest
    pure (stage ++ scriptErrors name body ++ needs ++ errors)

def documentErrors (document : Entries) : Except LintFault (List Text) := do
  let stages := stagesOf document
  let jobs ← jobsOf document document
  let allowed ← allowedStages stages
  let errors ← jobErrors allowed jobs jobs
  pure ((if stages.isEmpty then ["No stages defined".toList] else []) ++
    (if jobs.isEmpty then ["No jobs defined".toList] else []) ++ errors)

def report (errors : List Text) : LintReport := ⟨errors.isEmpty, errors⟩

def check (text : Text) : Except LintFault LintReport :=
  match Yaml.read text with
  | .error .malformed => .ok (report [Yaml.Fault.malformed.message])
  | .error fault => .error (.scalar fault)
  | .ok (.mapping document) => (documentErrors document).map report
  | .ok _ => .ok (report ["Configuration must be a mapping"])

end Lint
end PipelineMigration
