import PipelineMigration.Capability.Scan
import PipelineMigration.Number.Binary
set_option autoImplicit false

/- From hits to verdicts: one for each capability, judged by the catalog and trusted as far as the
   best hit and the tier allow. -/
namespace PipelineMigration.Capability

def unknownNote : Text := "Unknown capability - requires manual research"

def hitPlaceOrder (a b : CapabilityHit) : Bool :=
  a.line < b.line || (a.line == b.line && Text.notAfter a.matchedText b.matchedText)

/-- The highest confidence among hits, in percent. -/
def bestPercent (hits : List CapabilityHit) : Nat :=
  hits.foldl (fun best h => max best h.confidence.percent) 0

def verdictOf (t : Tables) (id : Text) (hits : List CapabilityHit) : Verdict :=
  let hits := hits.mergeSort hitPlaceOrder
  match Keyed.get? id t.catalog with
  | none => { id, tier := .unsupported, note := unknownNote, hits, confidence := 0 }
  | some e => {
      id, tier := e.tier, note := e.note, hits
      confidence := Number.nearest (min e.tier.weight (bestPercent hits)) 100
      equivalent := e.equivalent, include_ := e.include_
      documentation := e.documentation, alternative := e.alternative }

/-- By tier, then by capability. -/
def verdictOrder (a b : Verdict) : Bool :=
  a.tier.priority < b.tier.priority ||
    (a.tier.priority == b.tier.priority && Text.notAfter a.id b.id)

def resolve (t : Tables) (hits : List CapabilityHit) : List Verdict :=
  ((Keyed.groups (fun h : CapabilityHit => t.canonical h.id) hits).map
    fun (id, hits) => verdictOf t id hits).mergeSort verdictOrder

end PipelineMigration.Capability
