import PipelineMigration.Enrichment.Settings
import PipelineMigration.Exchange.Field
import PipelineMigration.Json.Writer
set_option autoImplicit false

/- Replies of the model, analyses and settings as JSON. -/
namespace PipelineMigration.Exchange

open Enrichment

def contentBody (content : Json) : Text :=
  (obj [("choices", .array [obj [("message",
    obj [("role", .string "assistant"), ("content", content)])]])]).compact

def replyOf (v : Json) : NetworkReply :=
  let status := intOr 200 (member "status" v)
  match v.get? "connect_error", v.get? "timeout", v.get? "content" with
  | some reason, _, _ => .unreachable (text reason)
  | none, some _, _ => .timedOut
  | none, none, some content => .answered status (contentBody content) []
  | none, none, none => .answered status (text (member "body" v))
      ((members (member "headers" v)).map fun (k, h) => (k, text h))

def givenOf (v : Json) : GivenSettings :=
  { apiKey := text? (member "api_key" v), model := text? (member "model" v)
    timeout := floatNumber? (member "timeout" v), rateLimit := int? (member "rate_limit" v)
    cacheLifetime := floatNumber? (member "cache_ttl" v) }

def analysisJson (a : Analysis) : Json :=
  obj [("capability_id", str a.capability), ("status", str a.status.name), ("note", str a.note),
    ("blocking", .bool a.blocking), ("workaround_available", .bool a.workaround),
    ("confidence", flt a.confidence), ("equivalent", opt str a.equivalent),
    ("doc_url", opt str a.docUrl), ("fallback", .bool a.fallback)]

def settingsJson (s : Settings) : Json :=
  obj [("model", str s.model), ("timeout", flt s.timeout), ("rate_limit", .int s.rateLimit),
    ("cache_ttl", flt s.cacheLifetime)]

def environmentOf (v : Json) : Environment := (members v).map fun (k, t) => (k, text t)

end PipelineMigration.Exchange
