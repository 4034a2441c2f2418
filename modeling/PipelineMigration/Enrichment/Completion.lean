import PipelineMigration.Json.Reader
import PipelineMigration.Text.Alphabet
import PipelineMigration.Text.LetterCase
set_option autoImplicit false

/- The question that a language model is asked about one capability. -/
namespace PipelineMigration.Enrichment

/-- Of the lines that use a capability, no more characters than this are shown. -/
def usageLimit : Nat := 1500

/-- What the model knows: the capability, the lines that use it, and what the project is. -/
structure Question where
  capability : Text
  usage : Text
  /-- Empty when nothing is said of the project. -/
  project : Text
deriving DecidableEq

namespace Question

def projectText (q : Question) : Text :=
  if q.project.isEmpty then "Not provided" else Text.trim q.project

def usageText (q : Question) : Text :=
  let cut := (Text.trim q.usage).take usageLimit
  if cut.isEmpty then "(no usage lines captured)" else cut

def fence : Text := "\x60\x60\x60"

def lines (q : Question) : List Text :=
  ["You are helping migrate a Jenkins pipeline to GitLab CI/CD.",
    "",
    "## Capability",
    q.capability,
    "",
    "## How the Jenkinsfile uses it",
    fence ++ "groovy",
    q.usageText,
    fence,
    "",
    "## Project context",
    q.projectText,
    ""]

def instructions : List Text :=
  ["## Instructions",
    "Describe how this capability should be handled in GitLab CI/CD.",
    "Never include credentials or secret values in your answer.",
    "Respond with ONLY a JSON object using these keys:",
    "- \"status\": one of \"native\", \"partial\", \"unsupported\"",
    "- \"equivalent\": the GitLab feature or keyword to use, or null",
    "- \"note\": one or two sentences of migration advice",
    "- \"blocking\": true if the pipeline cannot run until this is solved",
    "- \"workaround_available\": true if a manual workaround exists",
    "- \"doc_url\": a docs.gitlab.com link, or null",
    "- \"confidence\": a number between 0 and 1",
    "",
    "JSON:"]

def prompt (q : Question) : Text := Text.join "\n" (q.lines ++ instructions)

end Question

/- One question to a language model over the network, and what its reply comes to. -/

/-- What the network answers to a request. -/
inductive NetworkReply where
  | answered (status : Int) (body : Text) (headers : List (Text × Text))
  | unreachable (reason : Text)
  | timedOut

inductive CompletionError where
  | missingKey
  | rateLimited (body : Text) (retryAfter : Option Float)
  | unauthorized (status : Int) (body : Text)
  | failed (status : Int) (body : Text)
  | unreachable (reason : Text)
  | unexpectedShape | noText | notJson | notAnObject
  /-- A reply with a number too long to read. -/
  | integer (error : Number.IntegerError)
  | timedOut

/-- What is shown of a body in messages. -/
def bodyLimit : Nat := 500

def CompletionError.message : CompletionError → Text
  | missingKey => "OpenRouter API key is required. Set OPENROUTER_API_KEY or pass api_key."
  | rateLimited body _ => "Rate limit exceeded: " ++ body
  | unauthorized status body => "Authentication failed (" ++ Text.ofInt status ++ "): " ++ body
  | failed status body => "API error (" ++ Text.ofInt status ++ "): " ++ body
  | unreachable reason => "Request failed: " ++ reason
  | unexpectedShape => "Unexpected response shape"
  | noText => "Reply has no text content"
  | notJson => "Model reply is not valid JSON"
  | notAnObject => "Model reply is not a JSON object"
  | integer error => error.message
  | timedOut => ""

def defaultModel : Text := "anthropic/claude-3-haiku"

def systemPrompt : Text :=
  "You are a CI/CD migration assistant. You answer questions about moving " ++
    "Jenkins pipelines to GitLab CI/CD and reply with JSON only."

structure CompletionRequest where
  prompt : Text
  /-- No message from the system is sent when this is empty. -/
  system : Text := systemPrompt
  model : Text := defaultModel
  maxTokens : Json := .int 512
  temperature : Json := .float 0.2
  /-- Further fields, which win over the others. -/
  extra : List (Text × Json) := []

namespace CompletionRequest

def message (role : String) (content : Text) : Json :=
  .object [("role", .string role.toList), ("content", .string content)]

def messages (r : CompletionRequest) : List Json :=
  (if r.system.isEmpty then [] else [message "system" r.system]) ++ [message "user" r.prompt]

/-- The body that is sent. -/
def payload (r : CompletionRequest) : Json :=
  .object <| r.extra.foldl (fun fields (name, v) => Keyed.put name v fields)
    [("model", .string r.model), ("messages", .array r.messages), ("max_tokens", r.maxTokens),
      ("temperature", r.temperature)]

def formatName : Text := "response_format"

/-- The request for a reply in JSON, unless it asks for a format of its own. -/
def forJson (r : CompletionRequest) : CompletionRequest :=
  { r with extra := Keyed.offer formatName (.object [("type", .string "json_object")]) r.extra }

end CompletionRequest

/-- The seconds after which to ask again, where the reply says so. -/
def retryAfter? (headers : List (Text × Text)) : Option Float :=
  match headers.filter fun (name, _) => name.lower == "retry-after".toList with
  | [(_, value)] => Number.readFloat? value
  | _ => none

def errorOfStatus (status : Int) (body : Text) (headers : List (Text × Text)) : CompletionError :=
  let body := body.take bodyLimit
  if status == 429 then .rateLimited body (retryAfter? headers)
  else if status == 401 || status == 402 || status == 403 then .unauthorized status body
  else .failed status body

def first? : Json → Option Json
  | .array items => items.head?
  | _ => none

/-- The content of the first choice. -/
def content? (v : Json) : Option Json := do
  let choice ← first? (← v.get? "choices")
  (← choice.get? "message").get? "content"

/-- The text of a reply. -/
def replyText : NetworkReply → Except CompletionError Text
  | .unreachable reason => .error (.unreachable reason)
  | .timedOut => .error .timedOut
  | .answered status body headers =>
    if 400 ≤ status then .error (errorOfStatus status body headers)
    else match Json.readBody body with
      | .error _ => .error .unexpectedShape
      | .ok v => match content? v with
        | none => .error .unexpectedShape
        | some (.string s) => .ok s
        | some _ => .error .noText

/-- A text without the fence around it. -/
def stripCodeFence (s : Text) : Text :=
  let s := Text.trim s
  if Text.startsWith s Question.fence then
    let body := ((Text.splitOnce "\n" s).map (·.2)).getD []
    Text.trim (((Text.splitLast Question.fence body).map (·.1)).getD body)
  else s

/-- The object that a text spells, a fence around it allowed. -/
def objectOf (s : Text) : Except CompletionError (List (Text × Json)) :=
  match Json.read (stripCodeFence s) with
  | .error ⟨.integer e, _⟩ => .error (.integer e)
  | .error _ => .error .notJson
  | .ok (.object members) => .ok members
  | .ok _ => .error .notAnObject

def replyObject (reply : NetworkReply) : Except CompletionError (List (Text × Json)) := do
  objectOf (← replyText reply)

end PipelineMigration.Enrichment
