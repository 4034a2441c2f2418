import PipelineMigration.CommandLine.Session
import PipelineMigration.Service.Body
set_option autoImplicit false

/- Reports on conversions, in the form in which the service answers, and how they are shown. -/
namespace PipelineMigration.CommandLine

namespace Report

/-- A member of a value that has to be an object. -/
def at? (name : String) : Json → Except ReportFault Json
  | .object ms => match Keyed.get? name.toList ms with
    | some v => .ok v
    | none => .error (.noMember name.toList)
  | v => .error (.noMembers v.kindName)

/-- What a value consists of: items, names or characters. -/
def items : Json → Except ReportFault (List Json)
  | .array vs => .ok vs
  | .object ms => .ok (ms.map fun (name, _) => .string name)
  | .string s => .ok (s.map fun c => .string [c])
  | v => .error (.noItems v.kindName)

def size : Json → Except ReportFault Nat
  | .array vs => .ok vs.length
  | .object ms => .ok ms.length
  | .string s => .ok s.length
  | v => .error (.noSize v.kindName)

def percentage : Json → Except ReportFault Text
  | .float x => .ok (Number.percent x)
  | .int n => .ok (Number.percent (Number.nearest n 1))
  | .bool b => .ok (Number.percent (if b then 1 else 0))
  | v => .error (.noPercentage v.kindName)

/-- A value in a table; nothing at all is an empty cell. -/
def cell : Json → Except ReportFault Text
  | .string s => .ok s
  | .null => .ok []
  | v => .error (.noCell v.kindName)

/-- A value that a file can hold. -/
def content : Json → Except ReportFault Text
  | .string s => .ok s
  | v => .error (.noText v.kindName)

def row (label : String) (value : Text) : List Text := [label.toList, value]

def rows (report : Json) : Except ReportFault (List (List Text)) := do
  let extraction ← at? "extraction" report
  let score ← at? "score" (← at? "summary" report)
  let tier ← cell (← at? "complexity_tier" report)
  let total ← at? "total" (← at? "summary" report)
  let specs ← size (← at? "variables" report)
  let method ← at? "method" extraction
  let confidence ← percentage (← at? "confidence" extraction)
  let reviewCount ← at? "review_count" report
  let recordId := (report.get? "record_id".toList).getD .null
  pure <| [row "Readiness score" (score.plain ++ "/100"), row "Complexity" tier,
    row "Capabilities" total.plain, row "Variables" (Text.ofNat specs),
    row "Parsing" (method.plain ++ " (" ++ confidence ++ ")"),
    row "Review items" reviewCount.plain] ++
    match recordId with
    | .null => []
    | id => [row "History ID" id.plain]

/-- Where script blocks were passed over. -/
def regionLines (report : Json) : Except ReportFault (Option Text) := do
  let unparsed ← at? "unparsed" (← at? "extraction" report)
  if unparsed.truthy then
    let lines ← (← items unparsed).mapM (at? "start_line")
    pure (some (Text.join ", " (lines.map Json.plain)))
  else pure none

variable {σ : Type}

/-- Says every item of a list with a label before it. -/
def sayAll (label : Text) (found : Except ReportFault Json) : Command σ Unit := do
  (← expect (found.bind items)).forM fun v => say (label ++ ' ' :: v.plain)

def tell (title : Text) (report : Json) : Command σ Unit := do
  display (.table ("Conversion of ".toList ++ title) ["Metric", "Value"] (← expect (rows report)))
  if let some lines ← expect (regionLines report) then
    say ("[yellow]Script blocks need manual review (lines " ++ lines ++ ")[/yellow]")
  let validation := at? "validation" report
  sayAll "[red]Variable error:[/red]" (validation.bind (at? "errors"))
  sayAll "[yellow]Variable warning:[/yellow]" (validation.bind (at? "warnings"))
  let lint ← expect (at? "lint" report)
  if !(← expect (at? "valid" lint)).truthy then sayAll "[red]Lint:[/red]" (at? "errors" lint)

/-- The report on a conversion that no server took part in. -/
def ofMigration (m : Migration) : Json := Service.migrationBody m false none

end Report
end PipelineMigration.CommandLine

/- The server's log of conversions. -/
namespace PipelineMigration.CommandLine.Log

variable {σ : Type}

def headers : List Text := ["ID", "Source", "Score", "Tier", "Variables", "Review", "Date"]

/-- The day of a moment. -/
def day (s : Text) : Text :=
  match Text.splitOnce "T" s with
  | some (date, _) => date
  | none => s.take 10

/-- The day of a moment that a report tells. -/
def dayOf : Json → Except ReportFault Text
  | .string s => .ok (day s)
  | v => .error (.noParts v.kindName)

def sourceCell (v : Json) : Except ReportFault Text :=
  if v.truthy then Report.cell v else .ok ['-']

def row (record : Json) : Except ReportFault (List Text) := do
  let date ← dayOf (← Report.at? "created_at" record)
  let id ← Report.at? "id" record
  let source ← Report.at? "source_name" record
  let score ← Report.at? "readiness_score" record
  let tier ← Report.at? "complexity_tier" record
  let specs ← Report.at? "variable_count" record
  let review ← Report.at? "review_count" record
  pure [id.plain, ← sourceCell source, score.plain, ← Report.cell tier, specs.plain,
    review.plain, date]

def request (limit : Int) : ServerRequest :=
  { method := "GET", path := "/api/translate/log", query := [("limit", Text.ofInt limit)] }

def showRecords (records : Json) : Command σ Unit := do
  let count ← expect (Report.size records)
  let rows ← (← expect (Report.items records)).mapM fun r => expect (row r)
  display (.table ("Recent Conversions (showing " ++ Text.ofNat count ++ ")") headers rows)

def run (limit : Int) : Command σ Unit := do
  let (status, body) ← send (request limit)
  if status ≠ 200 then failRequest "get conversion history" status body
  let records ← reportOf body
  if records.truthy then showRecords records
  else say "[yellow]No conversion history found[/yellow]"

end PipelineMigration.CommandLine.Log

/- Converting a script, here or on the server. -/
namespace PipelineMigration.CommandLine

structure ConvertOrder where
  script : Path
  output : Path := Path.read ".gitlab-ci.yml"
  checklist : Option Path := none
  scope : Option Text := none
  remote : Bool := false
  enrich : Bool := false
  dryRun : Bool := false
  yes : Bool := false

namespace ConvertOrder

variable {σ : Type}

def translationRequest (o : ConvertOrder) (script scope : Text) : ServerRequest :=
  { method := "POST", path := "/api/translate"
    body := some (.ofMembers [("script", .string script), ("source_name", .string o.script.name),
      ("environment_scope", .string scope), ("enrich", .bool o.enrich)]) }

/-- The report of the server. -/
def remoteReport (o : ConvertOrder) (script scope : Text) : Command σ Json := do
  let (status, body) ← send (o.translationRequest script scope)
  if status = 200 then reportOf body else failRequest "convert" status body

/-- The report of a migration made here. -/
def localReport (script scope : Text) : Command σ Json := do
  match Migration.translate {} script { environmentScope := scope } (← read).stamp with
  | .ok m => pure (Report.ofMigration m)
  | .error e => failMigration e

def run (o : ConvertOrder) : Command σ Unit := do
  if o.enrich && !o.remote then fail (red "--enrich needs --remote")
  let script ← readScript o.script
  let scope ← givenOr o.scope usualScope
  let report ← if o.remote then o.remoteReport script scope else localReport script scope
  Report.tell o.script.text report
  let configuration ← expect (Report.at? "configuration" report)
  if o.dryRun then
    display (.panel o.output.text configuration.plain)
    say "\n[yellow]Dry run - no files written[/yellow]"
  else
    let _ ← writeOutput o.output (expect (Report.content configuration)) o.yes
    if let some path := o.checklist then
      let checklist ← expect (Report.at? "checklist" report)
      let _ ← writeOutput path (expect (Report.content checklist)) o.yes

end ConvertOrder
end PipelineMigration.CommandLine
