import PipelineMigration.Enrichment.Consultation
set_option autoImplicit false

/- Many consultations: one after the other, where the clock is read as each begins and again for its admission; and
   overlapping. There each begins at one go, which may answer or refuse it; one that is admitted waits until its
   question is sent and then for the reply, and others begin, are sent and end between. -/
namespace PipelineMigration.Enrichment

structure Call (τ : Type) where
  now : τ
  later : τ
  question : Question
  /-- What the network answers if the question is sent. -/
  reply : NetworkReply

/-- What is remembered, and the calls so far with what each came to. -/
structure Session (τ : Type) where
  memory : Memory τ := {}
  past : List (Call τ × Consulted) := []

namespace Consultation

variable {τ : Type} [Clock τ]

def consult (c : Consultation τ) (e : Call τ) (m : Memory τ) : Consulted × Memory τ :=
  match c.opening e.now e.later e.question m with
  | (.recalled a, m) => (⟨[], .ok a⟩, m)
  | (.refused, m) => (⟨[], .ok (fallbackAnalysis e.question.capability)⟩, m)
  | (.admitted, m) =>
    let (result, m) := c.closing e.now e.question e.reply m
    (⟨c.requests e.question, result⟩, m)

/-- On a clock that stands, this is a consultation at its one reading. -/
theorem analyze_eq (c : Consultation τ) (now : τ) (q : Question) (reply : NetworkReply) (m : Memory τ) :
    c.analyze now q reply m = c.consult ⟨now, now, q, reply⟩ m := rfl

def meet (c : Consultation τ) (s : Session τ) (e : Call τ) : Session τ where
  memory := (c.consult e s.memory).2
  past := s.past ++ [(e, (c.consult e s.memory).1)]

def session (c : Consultation τ) (calls : List (Call τ)) : Session τ := calls.foldl c.meet {}

end Consultation

/-- An admitted consultation under way. -/
structure Inquiry (τ : Type) where
  began : τ
  question : Question

/-- What is remembered, what is under way, and the admissions and requests so far. -/
structure Traffic (τ : Type) where
  memory : Memory τ := {}
  waiting : List (Inquiry τ) := []
  asked : List (Inquiry τ) := []
  admissions : List (τ × Question) := []
  requests : List CompletionRequest := []

/-- What can happen: a consultation begins, with the clock's two readings; one that waits is sent or given up; a reply
    comes in. The inquiries are told by their places. -/
inductive Event (τ : Type) where
  | call (now later : τ) (q : Question)
  | send (i : Nat)
  | abandon (i : Nat)
  | answer (i : Nat) (reply : NetworkReply)

namespace Event

variable {τ : Type}

/-- What is read off the clock. -/
def readings : Event τ → List τ
  | call now later _ => [now, later]
  | send _ | abandon _ | answer _ _ => []

/-- The replies that come in. -/
def replies : Event τ → List NetworkReply
  | answer _ reply => [reply]
  | call _ _ _ | send _ | abandon _ => []

end Event

namespace Consultation

variable {τ : Type} [Clock τ]

def step (c : Consultation τ) (s : Traffic τ) : Event τ → Traffic τ
  | .call now later q => match c.opening now later q s.memory with
    | (.admitted, m) => { s with
        memory := m
        waiting := s.waiting ++ [⟨now, q⟩]
        admissions := s.admissions ++ [(later, q)] }
    | (.recalled _, m) | (.refused, m) => { s with memory := m }
  | .send i => match s.waiting[i]? with
    | some w => { s with
        waiting := s.waiting.eraseIdx i
        asked := s.asked ++ [w]
        requests := s.requests ++ c.requests w.question }
    | none => s
  | .abandon i => { s with waiting := s.waiting.eraseIdx i }
  | .answer i reply => match s.asked[i]? with
    | some w => { s with
        memory := (c.closing w.began w.question reply s.memory).2
        asked := s.asked.eraseIdx i }
    | none => s

def run (c : Consultation τ) (s : Traffic τ) (events : List (Event τ)) : Traffic τ := events.foldl c.step s

end Consultation

end PipelineMigration.Enrichment
