import PipelineMigration.Capability.Catalog
import PipelineMigration.Capability.Scan
import PipelineMigration.Capability.Readiness
import PipelineMigration.Capability.Resolution
import PipelineMigration.Exchange.Field
set_option autoImplicit false

/- Capabilities, verdicts and readiness as JSON. -/
namespace PipelineMigration.Exchange

def excludedOf (v : Json) : List Text := match v with
  | .array vs => vs.map text
  | _ => Capability.excludedNames

def capabilityHitOf (v : Json) : CapabilityHit :=
  let id := text (member "id" v)
  { id, line := intOr 1 (member "line" v), matchedText := textOr id (member "matched_text" v)
    confidence := HitConfidence.ofName (textOr "high" (member "confidence" v)) }

def capabilityHitJson (h : CapabilityHit) : Json :=
  obj [("id", str h.id), ("line", .int h.line), ("matched_text", str h.matchedText),
    ("confidence", str h.confidence.name)]

def tierOf (v : Json) : SupportTier := (SupportTier.ofName? (textOr "native" v)).getD .native

def verdictOf (v : Json) : Verdict :=
  { id := text (member "id" v), tier := tierOf (member "tier" v)
    note := textOr "Note." (member "note" v)
    hits := (items (member "hits" v)).map capabilityHitOf
    confidence := floatOf (textOr "1.0" (member "confidence" v))
    equivalent := text? (member "equivalent" v), include_ := text? (member "include" v)
    documentation := text? (member "documentation" v)
    alternative := text? (member "alternative" v)
    enrichmentNote := text? (member "enrichment_note" v) }

def verdictJson (v : Verdict) : Json :=
  obj [("id", str v.id), ("tier", str v.tier.name), ("complexity", str v.complexity.name),
    ("note", str v.note), ("confidence", flt v.confidence), ("equivalent", opt str v.equivalent),
    ("include", opt str v.include_), ("documentation", opt str v.documentation),
    ("alternative", opt str v.alternative), ("enrichment_note", opt str v.enrichmentNote),
    ("first_line", .int v.firstLine), ("hits", arr capabilityHitJson v.hits)]

def readinessJson (r : Readiness) : Json :=
  obj [("total", num r.total), ("native", num r.native), ("templated", num r.templated),
    ("limited", num r.limited), ("unsupported", num r.unsupported), ("score", num r.score)]

end PipelineMigration.Exchange
