import PipelineMigration.CommandLine.Session
import PipelineMigration.Credential.EnvFile
import PipelineMigration.Credential.Provisioning
import PipelineMigration.Credential.Usage
set_option autoImplicit false

/- Reports on the capabilities and the credentials that a script uses. -/
namespace PipelineMigration.CommandLine

structure CapabilityOrder where
  script : Path
  checklist : Option Path := none
  yes : Bool := false

structure CredentialOrder where
  script : Path
  scope : Option Text := none
  projectId : Option Text := none
  envFile : Option Path := none
  provisioning : Option Path := none
  live : Bool := false
  batchSize : Int := 10
  yes : Bool := false

variable {σ : Type}

namespace CapabilityOrder

def tierColour : SupportTier → Text
  | .native => "green"
  | .templated => "cyan"
  | .limited => "yellow"
  | .unsupported => "red"

def tierCell (tier : SupportTier) : Text :=
  "[" ++ tierColour tier ++ "]" ++ tier.name ++ "[/" ++ tierColour tier ++ "]"

/-- What takes the place of a capability. -/
def successor (v : Verdict) : Text := ((said v.equivalent).or (said v.alternative)).getD "-"

def row (v : Verdict) : List Text :=
  [v.id, tierCell v.tier, successor v,
    Text.join ", " (v.hits.map fun h => Text.ofInt h.line), Number.fixed 2 v.confidence]

def headers : List Text := ["Capability", "Support", "GitLab equivalent", "Lines", "Confidence"]

def scoreLine (r : Readiness) : Text :=
  "\nReadiness score: [bold]" ++ Text.ofNat r.score ++ "/100[/bold] (" ++ Text.ofNat r.native ++
    " native, " ++ Text.ofNat r.templated ++ " templated, " ++ Text.ofNat r.limited ++
    " limited, " ++ Text.ofNat r.unsupported ++ " unsupported)"

def run (o : CapabilityOrder) : Command σ Unit := do
  let script ← readScript o.script
  let verdicts := Capability.resolve {} (Capability.scan {} script)
  if verdicts.isEmpty then say "[yellow]No plugin usage detected[/yellow]"
  else display (.table ("Capabilities in ".toList ++ o.script.text) headers (verdicts.map row))
  say (scoreLine (Capability.summarize verdicts))
  if let some path := o.checklist then
    let _ ← writeOutput path (pure (Capability.checklist verdicts none)) o.yes

end CapabilityOrder

namespace CredentialOrder

def flagCell (flag : Bool) : Text := if flag then "[green]yes[/green]" else "[dim]no[/dim]"

def keyCell (v : VariableSpec) : Text :=
  if Credential.needsReview v then v.key ++ " [yellow](review)[/yellow]" else v.key

def row (v : VariableSpec) : List Text :=
  [keyCell v, v.valueKind.name, flagCell v.masked, flagCell v.protected_, v.scope, v.sourceId]

def headers : List Text := ["Key", "Type", "Masked", "Protected", "Scope", "Jenkins ID"]

def writeFiles (o : CredentialOrder) (specs : List VariableSpec) : Command σ Unit := do
  if let some path := o.envFile then
    let _ ← writeOutput path (pure (Credential.envFile specs)) o.yes
  if let some path := o.provisioning then
    let project ← givenOr o.projectId (preference .projectId [])
    let script := Credential.provisioningScript project (!o.live) o.batchSize specs
    if ← writeOutput path (pure script) o.yes then
      modify fun s => { s with workspace := s.workspace.allowRunning path }

def showPlan (o : CredentialOrder) (hits : List CredentialHit) (specs : List VariableSpec) :
    Command σ Unit := do
  display (.table ("Variables for ".toList ++ o.script.text) headers (specs.map row))
  let report := KeyPolicy.validate {} specs
  report.errors.forM fun e => say ("[red]Error:[/red] ".toList ++ e)
  report.warnings.forM fun w => say ("[yellow]Warning:[/yellow] ".toList ++ w)
  (Credential.usage hits).recommendations.forM fun r => say ("[dim]- " ++ r ++ "[/dim]")

def run (o : CredentialOrder) : Command σ Unit := do
  let script ← readScript o.script
  let options : PlanOptions := { environmentScope := ← givenOr o.scope usualScope }
  if let .error e := Migration.checkOptions options then failMigration e
  let hits := CredentialReference.scan script
  let specs := Credential.resolve {} options hits
  if specs.isEmpty then say "[yellow]No credential references found[/yellow]"
  else
    o.showPlan hits specs
    o.writeFiles specs

end CredentialOrder
end PipelineMigration.CommandLine
