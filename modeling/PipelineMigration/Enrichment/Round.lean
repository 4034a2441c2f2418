import PipelineMigration.Enrichment.Traffic
set_option autoImplicit false

/- Verdicts enriched at once. Each is a task of its own that begins its consultation, waits until its question is sent
   and then for the reply; the tasks take turns in any order, with other consultations between, and write their notes in
   one place. -/
namespace PipelineMigration.Enrichment

/-- How far a task is. -/
inductive Stage (τ : Type) where
  | idle
  | waiting (began : τ)
  | asked (began : τ)
  | ended
  /-- The consultation broke off. -/
  | broken

namespace Stage

variable {τ : Type}

def isOver : Stage τ → Bool
  | ended => true
  | _ => false

/-- Whether the task has nothing more to send. -/
def isSpent : Stage τ → Bool
  | idle | waiting _ => false
  | asked _ | ended | broken => true

end Stage

structure Task (τ : Type) where
  question : Question
  stage : Stage τ := .idle

/-- The tasks, their notes and requests so far, and the traffic with whose memory they work. -/
structure Round (τ : Type) where
  traffic : Traffic τ
  tasks : List (Task τ)
  notes : List (Text × Text) := []
  requests : List CompletionRequest := []

/-- What a task does at its turn, the tasks told by their places, or what happens elsewhere. -/
inductive Turn (τ : Type) where
  | start (i : Nat) (now later : τ)
  | send (i : Nat)
  | abandon (i : Nat)
  | answer (i : Nat) (reply : NetworkReply)
  | elsewhere (e : Event τ)

/-- The replies that come in with a turn. -/
def Turn.replies {τ : Type} : Turn τ → List NetworkReply
  | .answer _ reply => [reply]
  | .elsewhere e => e.replies
  | .start _ _ _ | .send _ | .abandon _ => []

namespace Round

variable {τ : Type}

def start (traffic : Traffic τ) (script project : Text) (verdicts : List Verdict) : Round τ :=
  { traffic, tasks := (candidates verdicts).map fun v => { question := questionOf (Text.lines script) project v } }

def remember (memory : Memory τ) (r : Round τ) : Round τ := { r with traffic := { r.traffic with memory } }

def reach (i : Nat) (q : Question) (stage : Stage τ) (r : Round τ) : Round τ :=
  { r with tasks := r.tasks.set i ⟨q, stage⟩ }

/-- A task comes to an analysis, and notes what the model said. -/
def finish (i : Nat) (q : Question) (a : Analysis) (r : Round τ) : Round τ :=
  let r := r.reach i q .ended
  if a.fallback then r else { r with notes := Keyed.put q.capability a.note r.notes }

/-- The verdicts with the notes, once every task has come to an analysis. -/
def outcome? (verdicts : List Verdict) (r : Round τ) : Option (List Verdict) :=
  if r.tasks.all (·.stage.isOver) then some (withNotes r.notes verdicts) else none

end Round

namespace Consultation

variable {τ : Type} [Clock τ]

def turn (c : Consultation τ) (r : Round τ) : Turn τ → Round τ
  | .start i now later => match r.tasks[i]? with
    | some ⟨q, .idle⟩ => match c.opening now later q r.traffic.memory with
      | (.recalled a, m) => (r.remember m).finish i q a
      | (.refused, m) => (r.remember m).finish i q (fallbackAnalysis q.capability)
      | (.admitted, m) => (r.remember m).reach i q (.waiting now)
    | _ => r
  | .send i => match r.tasks[i]? with
    | some ⟨q, .waiting began⟩ => { r with requests := r.requests ++ c.requests q }.reach i q (.asked began)
    | _ => r
  -- The network is given up before the question is sent.
  | .abandon i => match r.tasks[i]? with
    | some ⟨q, .waiting _⟩ => r.finish i q (fallbackAnalysis q.capability)
    | _ => r
  | .answer i reply => match r.tasks[i]? with
    | some ⟨q, .asked began⟩ => match c.closing began q reply r.traffic.memory with
      | (.ok a, m) => (r.remember m).finish i q a
      | (.error _, m) => (r.remember m).reach i q .broken
    | _ => r
  | .elsewhere e => { r with traffic := c.step r.traffic e }

def conduct (c : Consultation τ) (r : Round τ) (turns : List (Turn τ)) : Round τ := turns.foldl c.turn r

end Consultation
end PipelineMigration.Enrichment
