import PipelineMigration.Credential.Plan
import PipelineMigration.Service.Field
set_option autoImplicit false

/- What requests carry. -/
namespace PipelineMigration.Service

def scriptLimit : Nat := 1000000
def sourceNameLimit : Nat := 255
def projectContextLimit : Nat := 4000

structure TranslatePayload where
  options : PlanOptions
  script : Text
  sourceName : Option Text
  enrich : Bool
  projectContext : Option Text

structure CredentialPayload where
  options : PlanOptions
  script : Text
  projectId : Text
  dryRun : Bool
  batchSize : Int

structure LogPage where
  limit : Int
  offset : Int

def takeMapping : Take CustomMapping
  | place, .object ms =>
    .on (.on (.on (.on (.on
      ((Take.usual ms "key" none (.optional .text) place).map CustomMapping.mk)
      (Take.usual ms "value_kind" none (.optional (.choice ValueKind.ofName?)) place))
      (Take.usual ms "masked" none (.optional .truth) place))
      (Take.usual ms "protected" none (.optional .truth) place))
      (Take.usual ms "scope" none (.optional .text) place))
      (Take.usual ms "description" none (.optional .text) place)
  | place, _ => .faulty place .members

def takeOptions (ms : List (Text × Json)) (place : Place) : Checked PlanOptions :=
  .on (.on ((Take.usual ms "environment_scope" "*".toList .text place).map PlanOptions.mk)
    (Take.usual ms "force_protected" true .truth place))
    (Take.usual ms "custom_mappings" [] (.mapping takeMapping) place)

def takeScript (ms : List (Text × Json)) (place : Place) : Checked Text :=
  Take.required ms "script" (.textUpTo scriptLimit) place

def takeTranslate : Take TranslatePayload
  | place, .object ms =>
    .on (.on (.on (.on ((takeOptions ms place).map TranslatePayload.mk) (takeScript ms place))
      (Take.usual ms "source_name" none (.optional (.textUpTo sourceNameLimit)) place))
      (Take.usual ms "enrich" false .truth place))
      (Take.usual ms "project_context" none (.optional (.textUpTo projectContextLimit)) place)
  | place, _ => .faulty place .members

def takeCapabilityScan : Take Text
  | place, .object ms => takeScript ms place
  | place, _ => .faulty place .members

def takeCredentialScan : Take CredentialPayload
  | place, .object ms =>
    .on (.on (.on (.on ((takeOptions ms place).map CredentialPayload.mk) (takeScript ms place))
      (Take.usual ms "project_id" [] .text place))
      (Take.usual ms "dry_run" true .truth place))
      (Take.usual ms "batch_size" 10 (.wholeWithin 1 (some 50)) place)
  | place, _ => .faulty place .members

/-- The page of a list that a query asks for; of a repeated name the last value counts. -/
def takeLogPage (query : List (Text × Text)) : Checked LogPage :=
  let ms := Keyed.ofPairs (query.map fun (k, v) => (k, Json.string v))
  let place := [.name "query"]
  .on ((Take.usual ms "limit" 20 (.wholeWithin 1 (some 200)) place).map LogPage.mk)
    (Take.usual ms "offset" 0 (.wholeWithin 0 none) place)

def takeRecordId (given : Text) : Checked Int :=
  Take.whole [.name "path", .name "record_id"] (.string given)

end PipelineMigration.Service
