import PipelineMigration.Json.Reader
import PipelineMigration.Service.Body
import PipelineMigration.Service.Payload
import PipelineMigration.Service.Translation
set_option autoImplicit false

/- What the service answers to each request. -/
namespace PipelineMigration.Service

open Enrichment

structure WebRequest where
  method : Text
  path : Text
  query : List (Text × Text) := []
  body : Option Text := none

structure WebResponse where
  status : Nat
  body : Option Json := none

inductive Endpoint where
  | health | translate | log | capabilityScan | credentialScan
  | record (id : Text)
deriving DecidableEq

namespace Endpoint

/-- The endpoints with a path of their own. -/
def fixed : List Endpoint := [health, translate, log, capabilityScan, credentialScan]

def path : Endpoint → Text
  | health => "/health"
  | translate => "/api/translate"
  | log => "/api/translate/log"
  | capabilityScan => "/api/plugins/scan"
  | credentialScan => "/api/credentials"
  | record id => "/api/translate/log/".toList ++ id

def method : Endpoint → Text
  | health => "GET"
  | log => "GET"
  | record _ => "GET"
  | _ => "POST"

/-- The id after the path of the log, which holds no slash. -/
def recordId? (path : Text) : Option Text :=
  let start := log.path ++ ['/']
  let id := path.drop start.length
  if start.isPrefixOf path && !id.isEmpty && !id.contains '/' then some id else none

def ofPath? (path : Text) : Option Endpoint :=
  (fixed.find? (·.path == path)).or ((recordId? path).map record)

end Endpoint

namespace WebResponse

def ok (body : Json) : WebResponse := { status := 200, body := some body }
def detail (status : Nat) (text : Text) : WebResponse := { status, body := some (detailBody text) }

def invalid (faults : List PlacedFault) : WebResponse :=
  { status := 422
    body := some (errorBody "Validation Error" "Request validation failed"
      (list faultBody faults)) }

def broken (message : Text) : WebResponse :=
  { status := 500, body := some (errorBody "Internal Server Error" message .null) }

/-- A failure that lies in the request is told apart from others. -/
def failed : Failure → WebResponse
  | .migration .emptyScope => detail 400 MigrationError.emptyScope.message
  | e => broken e.message

end WebResponse

/-- Why a body is not read. -/
inductive BodyFault where
  | checked (faults : List PlacedFault)
  | unreadable

/-- The value of a body. -/
def bodyValue : Option Text → Except BodyFault Json
  | none => .error (.checked [⟨.missing, [.name "body"]⟩])
  | some [] => .error (.checked [⟨.missing, [.name "body"]⟩])
  | some s => match Json.readBody s with
    | .ok v => .ok v
    | .error e => match e.fault with
      | .integer _ => .error .unreadable
      | _ => .error (.checked [⟨.document, [.name "body", .index e.position]⟩])

/-- What an endpoint makes of a request. -/
structure Reply where
  response : WebResponse
  /-- What the model was asked. -/
  requests : List CompletionRequest := []
  archive : Archive

variable {τ : Type} [Clock τ]

/-- Answers with what was served. -/
def Served.reply {α : Type} (body : α → Json) (served : Served α) : Reply :=
  { response := match served.result with
      | .ok a => .ok (body a)
      | .error e => .failed e
    requests := served.requests, archive := served.archive }

/-- Serves what a body carries, or tells why it cannot be read. -/
def withPayload {α : Type} (take : Take α) (body : Option Text) (a : Archive)
    (serve : α → Reply) : Reply :=
  match bodyValue body with
  | .error .unreadable =>
    { response := .detail 400 "There was an error parsing the body", archive := a }
  | .error (.checked faults) => { response := .invalid faults, archive := a }
  | .ok v => match take [.name "body"] v with
    | .error faults => { response := .invalid faults, archive := a }
    | .ok payload => serve payload

def replyTranslate (s : Setup τ) (m : Moment τ) (p : TranslatePayload) (a : Archive) : Reply :=
  (translate s m p.options p.script p.sourceName p.enrich (p.projectContext.getD []) a).reply
    fun t => migrationBody t.migration t.enriched t.recordId

def replyCapabilityScan (s : Setup τ) (m : Moment τ) (script : Text) (a : Archive) : Reply :=
  (scanCapabilities s m script a).reply fun t => capabilityScanBody t.hits t.verdicts

def replyCredentialScan (s : Setup τ) (m : Moment τ) (p : CredentialPayload) (a : Archive) :
    Reply :=
  (scanCredentials s m p.options p.script a).reply fun t =>
    credentialScanBody s.settings.keys t.hits t.specs p.projectId p.dryRun p.batchSize

/-- What the archive says, or that it failed. -/
def asked {α : Type} (said : Except HistoryError α) (respond : α → WebResponse) : WebResponse :=
  match said with
  | .ok found => respond found
  | .error e => .broken e.message

def respondLog (query : List (Text × Text)) (a : Archive) : WebResponse :=
  match takeLogPage query with
  | .error faults => .invalid faults
  | .ok page => asked (a.recent page.limit page.offset) fun rs => .ok (list recordBody rs)

def respondRecord (given : Text) (a : Archive) : WebResponse :=
  match takeRecordId given with
  | .error faults => .invalid faults
  | .ok id => asked (a.record? id) fun
    | some r => .ok (recordDetailBody r)
    | none => .detail 404 ("Migration record " ++ Text.ofInt id ++ " not found")

def serve (s : Setup τ) (m : Moment τ) (request : WebRequest) (a : Archive) : Endpoint → Reply
  | .health => { response := .ok healthBody, archive := a }
  | .translate => withPayload takeTranslate request.body a fun p => replyTranslate s m p a
  | .capabilityScan =>
    withPayload takeCapabilityScan request.body a fun script => replyCapabilityScan s m script a
  | .credentialScan =>
    withPayload takeCredentialScan request.body a fun p => replyCredentialScan s m p a
  | .log => { response := respondLog request.query a, archive := a }
  | .record id => { response := respondRecord id a, archive := a }

/-- A path that is one of an endpoint but for slashes at its end. -/
def isMisspelled (path : Text) : Bool :=
  path.getLast? == some '/' &&
    (Endpoint.ofPath? (Text.trimRightBy (· == '/') path)).isSome

/-- The answer to a request in full. -/
def handle (s : Setup τ) (m : Moment τ) (request : WebRequest) (a : Archive) : Reply :=
  match Endpoint.ofPath? request.path with
  | some e =>
    if request.method == e.method then serve s m request a e
    else { response := .detail 405 "Method Not Allowed", archive := a }
  | none =>
    { response := if isMisspelled request.path then { status := 307 }
        else .detail 404 "Not Found"
      archive := a }

/-- The answer as it is sent: a question for the head alone gets no body. -/
def answer (s : Setup τ) (m : Moment τ) (request : WebRequest) (a : Archive) : Reply :=
  let reply := handle s m request a
  if request.method == "HEAD".toList then
    { reply with response := { reply.response with body := none } }
  else reply

end PipelineMigration.Service
