import PipelineMigration.Exchange.Field
import PipelineMigration.Extraction
set_option autoImplicit false

/- Features and extractions as JSON. -/
namespace PipelineMigration.Exchange

def textPair (p : Text × Text) : Json := .array [str p.1, str p.2]
def linePair (p : Text × Nat) : Json := .array [str p.1, num p.2]

def parameterJson (p : Parameter) : Json :=
  obj [("name", str p.name), ("kind", str p.kind.name), ("default", str p.default),
    ("description", str p.description), ("choices", arr str p.choices)]

def retentionJson (r : Retention) : Json :=
  obj [("days_to_keep", .int r.daysToKeep), ("num_to_keep", .int r.numToKeep),
    ("artifact_days_to_keep", .int r.artifactDaysToKeep),
    ("artifact_num_to_keep", .int r.artifactNumToKeep), ("is_empty", .bool r.isEmpty)]

def bindingJson (b : CredentialBinding) : Json :=
  obj [("source_id", str b.sourceId), ("kind", str b.form.name),
    ("variables", arr textPair b.targets)]

def guardJson (g : Guard) : Json :=
  obj [("condition", str g.condition.name), ("expression", str g.expression),
    ("stage", str g.stage)]

def axisJson (a : Text × List Text) : Json := .array [str a.1, arr str a.2]
def phaseJson (p : PostPhase × List PostAction) : Json :=
  .array [str p.1.name, arr (fun a => str a.name) p.2]

def featuresJson (f : FeatureSet) : Json :=
  obj [("parameters", arr parameterJson f.parameters), ("environment", arr textPair f.environment),
    ("matrix", arr axisJson f.matrix), ("timeout_minutes", .int f.timeoutMinutes),
    ("retry_count", .int f.retryCount), ("post_actions", arr phaseJson f.postActions),
    ("retention", retentionJson f.retention),
    ("credential_bindings", arr bindingJson f.credentialBindings),
    ("guards", arr guardJson f.guards), ("parallel_stages", arr str f.parallelStages),
    ("stage_names", arr str f.stageNames), ("libraries", arr str f.libraries),
    ("style", str f.style.name)]

def regionJson (r : UnparsedRegion) : Json :=
  obj [("text", str r.text), ("start_line", num r.startLine), ("end_line", num r.endLine),
    ("reason", str r.reason)]

def extractionJson (e : Extraction) : Json :=
  obj [("features", featuresJson e.features), ("confidence", flt e.confidence),
    ("method", str e.method.name), ("stage_lines", arr linePair e.stageLines),
    ("plugin_lines", arr linePair e.pluginLines), ("unparsed", arr regionJson e.unparsed)]

def pairOf (v : Json) : Text × Text := match items v with
  | [a, b] => (text a, text b)
  | _ => ([], [])

def axisOf (v : Json) : Text × List Text := match items v with
  | [a, b] => (text a, texts b)
  | _ => ([], [])

def featuresOf (v : Json) : FeatureSet :=
  let r := member "retention" v
  { parameters := (items (member "parameters" v)).map fun p =>
      { name := text (member "name" p)
        kind := (ParameterKind.ofName? (text (member "kind" p))).getD .string
        default := text (member "default" p), description := text (member "description" p)
        choices := texts (member "choices" p) }
    environment := (items (member "environment" v)).map pairOf
    matrix := (items (member "matrix" v)).map axisOf
    timeoutMinutes := int (member "timeout_minutes" v)
    retryCount := int (member "retry_count" v)
    postActions := (items (member "post_actions" v)).map fun p =>
      let (phase, tags) := axisOf p
      (PostPhase.ofName phase, tags.map PostAction.ofName)
    retention := {
      daysToKeep := int (member "days_to_keep" r), numToKeep := int (member "num_to_keep" r)
      artifactDaysToKeep := int (member "artifact_days_to_keep" r)
      artifactNumToKeep := int (member "artifact_num_to_keep" r) }
    credentialBindings := (items (member "credential_bindings" v)).map fun b =>
      { sourceId := text (member "source_id" b)
        form := (BindingForm.ofName? (text (member "kind" b))).getD .string
        targets := (items (member "variables" b)).map pairOf }
    guards := (items (member "guards" v)).map fun g =>
      { condition := GuardCondition.ofName (text (member "condition" g))
        expression := text (member "expression" g), stage := text (member "stage" g) }
    parallelStages := texts (member "parallel_stages" v)
    stageNames := texts (member "stage_names" v)
    libraries := texts (member "libraries" v)
    style := PipelineStyle.ofName (textOr "unknown" (member "style" v)) }

end PipelineMigration.Exchange
