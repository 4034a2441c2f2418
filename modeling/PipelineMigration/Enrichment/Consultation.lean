import PipelineMigration.Capability.Basic
import PipelineMigration.Enrichment.Analysis
import PipelineMigration.Text.Alphabet
set_option autoImplicit false

/- Consulting the model, with answers kept for a time and no more than so many questions a
   minute. A consultation begins, which may answer or refuse at once, and ends when the reply has
   come; others may begin and end between. Time is any ordered number. -/
namespace PipelineMigration.Enrichment

/-- A clock's readings. -/
class Clock (τ : Type) extends Add τ, Sub τ, LE τ, LT τ where
  minute : τ
  decideLe : DecidableRel (α := τ) (· ≤ ·)
  decideLt : DecidableRel (α := τ) (· < ·)

instance Clock.instLe {τ : Type} [c : Clock τ] : DecidableRel (α := τ) (· ≤ ·) := c.decideLe
instance Clock.instLt {τ : Type} [c : Clock τ] : DecidableRel (α := τ) (· < ·) := c.decideLt

instance : Clock Float where
  minute := 60
  decideLe := inferInstance
  decideLt := inferInstance

instance : Clock Int where
  minute := 60
  decideLe := inferInstance
  decideLt := inferInstance

instance : Clock Rat where
  minute := 60
  decideLe := inferInstance
  decideLt := inferInstance

/-- Analyses with the time until which they count, and the times of admitted questions. -/
structure Memory (τ : Type) where
  kept : List (Question × τ × Analysis) := []
  calls : List τ := []

namespace Memory

variable {τ : Type} [Clock τ]

/-- An analysis that still counts. -/
def known? (now : τ) (q : Question) (m : Memory τ) : Option Analysis :=
  (Keyed.get? q m.kept).bind fun (expiry, a) => if now < expiry then some a else none

/-- Admits a question unless `limit` of them were admitted within the last minute. -/
def admit? (limit : Int) (now : τ) (m : Memory τ) : Option (Memory τ) × Memory τ :=
  let m := { m with calls := m.calls.dropWhile fun t => Clock.minute ≤ now - t }
  if limit ≤ m.calls.length then (none, m)
  else
    let m := { m with calls := m.calls ++ [now] }
    (some m, m)

def keep (q : Question) (expiry : τ) (a : Analysis) (m : Memory τ) : Memory τ :=
  { m with kept := Keyed.put q (expiry, a) m.kept }

end Memory

/-- How a consultation begins. -/
inductive Opening where
  | recalled (analysis : Analysis)
  | refused
  | admitted

structure Consultation (τ : Type) where
  apiKey : Text
  model : Text
  /-- Questions admitted in a minute. -/
  limit : Int
  /-- How long an analysis counts. -/
  lifetime : τ

/-- What a consultation sends and what it comes to. -/
structure Consulted where
  requests : List CompletionRequest
  result : Except AnalysisFault Analysis

namespace Consultation

variable {τ : Type} [Clock τ]

/-- Begins a consultation. The clock is read once for what is kept and once more for an admission. -/
def opening (c : Consultation τ) (now later : τ) (q : Question) (m : Memory τ) : Opening × Memory τ :=
  match m.known? now q with
  | some a => (.recalled a, m)
  | none => match m.admit? c.limit later with
    | (some m, _) => (.admitted, m)
    | (none, m) => (.refused, m)

def request (c : Consultation τ) (q : Question) : CompletionRequest :=
  CompletionRequest.forJson { prompt := q.prompt, model := c.model }

/-- What an admitted question sends: nothing without a key. -/
def requests (c : Consultation τ) (q : Question) : List CompletionRequest :=
  if c.apiKey.isEmpty then [] else [c.request q]

/-- What the reply says; any failure of the network or of the answer's form is a rejection. -/
def hear (c : Consultation τ) (q : Question) (reply : NetworkReply) :
    Except AnalysisFault Analysis :=
  if c.apiKey.isEmpty then .error .rejected
  else match replyObject reply with
    | .error _ => .error .rejected
    | .ok members => Analysis.ofMembers q.capability members

/-- Ends a consultation that began at `began`: only an accepted analysis is kept. -/
def closing (c : Consultation τ) (began : τ) (q : Question) (reply : NetworkReply)
    (m : Memory τ) : Except AnalysisFault Analysis × Memory τ :=
  match c.hear q reply with
  | .ok a => (.ok a, m.keep q (began + c.lifetime) a)
  | .error .rejected => (.ok (fallbackAnalysis q.capability), m)
  | .error .overflow => (.error .overflow, m)

/-- A consultation without others between its beginning and its end, on a clock that stands. -/
def analyze (c : Consultation τ) (now : τ) (q : Question) (reply : NetworkReply) (m : Memory τ) :
    Consulted × Memory τ :=
  match c.opening now now q m with
  | (.recalled a, m) => (⟨[], .ok a⟩, m)
  | (.refused, m) => (⟨[], .ok (fallbackAnalysis q.capability)⟩, m)
  | (.admitted, m) =>
    let (result, m) := c.closing now q reply m
    (⟨c.requests q, result⟩, m)

end Consultation

/-- More verdicts than this are not enriched at once. -/
def enrichedLimit : Nat := 10

def candidates (verdicts : List Verdict) : List Verdict :=
  (verdicts.filter fun v => v.tier != .native).take enrichedLimit

/-- The lines of the script that a verdict rests on. -/
def usageOf (lines : List Text) (v : Verdict) : Text :=
  Text.join "\n" <| v.hits.filterMap fun h =>
    if 0 < h.line then lines[(h.line - 1).toNat]? else none

def questionOf (lines : List Text) (project : Text) (v : Verdict) : Question :=
  { capability := v.id, usage := usageOf lines v, project }

def withNotes (notes : List (Text × Text)) (verdicts : List Verdict) : List Verdict :=
  verdicts.map fun v => match Keyed.get? v.id notes with
    | some note => { v with enrichmentNote := some note }
    | none => v

/-- What enriching sends and what it comes to: the verdicts with notes, or how many consultations
    broke off. -/
structure Enriched where
  requests : List CompletionRequest
  result : Except Nat (List Verdict)

variable {τ : Type} [Clock τ]

/-- Consults on one verdict after the other. -/
def consultAll (c : Consultation τ) (now : τ) (reply : Text → NetworkReply) (m : Memory τ) :
    List Question → List (Question × Consulted) × Memory τ
  | [] => ([], m)
  | q :: rest =>
    let (said, m) := c.analyze now q (reply q.capability) m
    let (more, m) := consultAll c now reply m rest
    ((q, said) :: more, m)

/-- The note of an analysis that the model gave. -/
def noteOf? (said : Question × Consulted) : Option (Text × Text) :=
  match said.2.result with
  | .ok a => if a.fallback then none else some (said.1.capability, a.note)
  | .error _ => none

def brokeOff (said : Question × Consulted) : Bool :=
  match said.2.result with
  | .ok _ => false
  | .error _ => true

/-- Attaches notes to the first verdicts without native support; nothing else changes. -/
def enrich (c : Consultation τ) (now : τ) (reply : Text → NetworkReply) (script project : Text)
    (verdicts : List Verdict) (m : Memory τ) : Enriched × Memory τ :=
  let lines := Text.lines script
  let (said, m) := consultAll c now reply m ((candidates verdicts).map (questionOf lines project))
  let failures := said.countP brokeOff
  ({ requests := said.flatMap (·.2.requests)
     result := if failures = 0 then
         .ok (withNotes (Keyed.ofPairs (said.filterMap noteOf?)) verdicts)
       else .error failures }, m)

end PipelineMigration.Enrichment
