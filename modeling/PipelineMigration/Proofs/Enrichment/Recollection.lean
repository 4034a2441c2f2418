import PipelineMigration.Proofs.Enrichment.Absorption
import PipelineMigration.Proofs.Keyed
import PipelineMigration.Proofs.Outcome
set_option autoImplicit false

/- What is remembered is what was last accepted. Over any calls one after the other, the entry of a question is the
   analysis that the latest accepted reply to it spelled, with the time until which it counts. -/
namespace PipelineMigration.Enrichment

section Accepted

variable {τ : Type}

/-- The analysis of a question that was sent and whose reply counts. -/
def Consulted.accepted? (said : Consulted) : Option Analysis :=
  if said.requests.isEmpty then none else said.result.toOption.filter fun a => !a.fallback

theorem accepted_iff (said : Consulted) (a : Analysis) :
    said.accepted? = some a ↔ said.requests ≠ [] ∧ said.result = .ok a ∧ a.fallback = false := by
  obtain ⟨requests, result⟩ := said
  unfold Consulted.accepted?
  cases requests with
  | nil => exact iff_of_false nofun fun sent => sent.1 rfl
  | cons r rest =>
    cases result with
    | error fault => exact iff_of_false nofun fun heard => nomatch heard.2.1
    | ok b =>
      simp only [List.isEmpty_cons, Bool.false_eq_true, if_false, Except.toOption, Option.filter_some, ne_eq,
        reduceCtorEq, not_false_eq_true, true_and, Except.ok.injEq]
      cases fails : b.fallback <;> grind

/-- When the latest call with a question whose reply was accepted began, and its analysis. -/
def lastAccepted? (q : Question) (past : List (Call τ × Consulted)) : Option (τ × Analysis) :=
  past.reverse.findSome? fun e => if e.1.question = q then e.2.accepted?.map (e.1.now, ·) else none

theorem last_accepted_snoc (q : Question) (past : List (Call τ × Consulted)) (e : Call τ × Consulted) :
    lastAccepted? q (past ++ [e]) =
      (if e.1.question = q then e.2.accepted?.map (e.1.now, ·) else none).or (lastAccepted? q past) := by
  unfold lastAccepted?
  rw [List.reverse_append, List.reverse_singleton, List.singleton_append, List.findSome?_cons]
  cases (if e.1.question = q then e.2.accepted?.map (e.1.now, ·) else none) <;> rfl

theorem of_members_heard {capability : Text} {members : List (Text × Json)} {a : Analysis}
    (heard : Analysis.ofMembers capability members = .ok a) : a.fallback = false := by
  unfold Analysis.ofMembers at heard
  dsimp only at heard
  split at heard
  · cases heard
  · split at heard
    · cases heard
    · split at heard
      all_goals
        obtain ⟨x, -, rest⟩ := Outcome.bind_ok heard
        cases rest
        rfl

end Accepted

namespace Consultation

variable {τ : Type} {c : Consultation τ}

theorem hear_accepted {q : Question} {reply : NetworkReply} {a : Analysis} (heard : c.hear q reply = .ok a) :
    c.requests q ≠ [] ∧ a.fallback = false := by
  unfold hear at heard
  unfold requests
  split at heard
  · cases heard
  · rename_i keyed
    rw [if_neg keyed]
    refine ⟨List.cons_ne_nil _ _, ?_⟩
    split at heard
    · cases heard
    · exact of_members_heard heard

variable [Clock τ]

theorem consult_kept (c : Consultation τ) (e : Call τ) (m : Memory τ) : (c.consult e m).2.kept =
    match (c.consult e m).1.accepted? with
    | some a => Keyed.put e.question (e.now + c.lifetime, a) m.kept
    | none => m.kept := by
  cases known : m.known? e.now e.question with
  | some a =>
    rw [consult_known known]
    rfl
  | none =>
    by_cases room : c.HasRoom e.later m
    · rw [consult_admitted known room]
      unfold closing
      cases heard : c.hear e.question e.reply with
      | ok a =>
        obtain ⟨sent, fresh⟩ := hear_accepted heard
        have accepted : Consulted.accepted? ⟨c.requests e.question, .ok a⟩ = some a := (accepted_iff _ _).2 ⟨sent, rfl, fresh⟩
        dsimp only
        rw [accepted]
        rfl
      | error fault =>
        -- The fallback says of itself that it is one, and a call that breaks off has no analysis.
        have refused : Consulted.accepted? ⟨c.requests e.question, .ok (fallbackAnalysis e.question.capability)⟩ = none :=
          Option.eq_none_iff_forall_ne_some.2 fun a accepted => by
            obtain ⟨-, same, fresh⟩ := (accepted_iff _ _).1 accepted
            cases same
            cases fresh
        have broken : Consulted.accepted? ⟨c.requests e.question, .error .overflow⟩ = none :=
          Option.eq_none_iff_forall_ne_some.2 fun a accepted => nomatch ((accepted_iff _ _).1 accepted).2.1
        cases fault with
        | rejected =>
          dsimp only
          rw [refused]
        | overflow =>
          dsimp only
          rw [broken]
    · rw [consult_full known room]
      rfl

theorem recalled_iff (c : Consultation τ) (e : Call τ) (m : Memory τ) (a : Analysis) :
    (c.consult e m).1.requests = [] ∧ (c.consult e m).1.result = .ok a ∧ a.fallback = false ↔
      m.known? e.now e.question = some a ∧ a.fallback = false := by
  cases known : m.known? e.now e.question with
  | some b =>
    rw [consult_known known]
    simp
  | none =>
    refine iff_of_false (fun ⟨unsent, given, fresh⟩ => ?_) nofun
    by_cases room : c.HasRoom e.later m
    · rw [consult_admitted known room] at unsent given
      unfold closing at given
      cases heard : c.hear e.question e.reply with
      | ok b => exact (hear_accepted heard).1 unsent
      | error fault =>
        rw [heard] at given
        cases fault with
        | rejected =>
          cases given
          cases fresh
        | overflow => cases given
    · rw [consult_full known room] at given
      cases given
      cases fresh

/-- Each entry is the analysis that was last accepted for its question, with its time, and none is a fallback. -/
structure Recollects (c : Consultation τ) (s : Session τ) : Prop where
  latest : ∀ q, Keyed.get? q s.memory.kept = (lastAccepted? q s.past).map fun (began, a) => (began + c.lifetime, a)
  heard : ∀ entry ∈ s.memory.kept, entry.2.2.fallback = false

theorem recollects_begin (c : Consultation τ) : c.Recollects {} where
  latest _ := rfl
  heard := List.forall_mem_nil _

theorem Recollects.meet {s : Session τ} (held : c.Recollects s) (e : Call τ) : c.Recollects (c.meet s e) := by
  have kept := consult_kept c e s.memory
  unfold Consultation.meet
  cases accepted : (c.consult e s.memory).1.accepted? with
  | none =>
    rw [accepted] at kept
    dsimp only at kept
    refine ⟨fun q => ?_, fun entry member => held.heard entry (kept ▸ member)⟩
    dsimp only
    rw [kept, held.latest, last_accepted_snoc, accepted, Option.map_none, ite_self, Option.none_or]
  | some a =>
    rw [accepted] at kept
    dsimp only at kept
    refine ⟨fun q => ?_, fun entry member => ?_⟩
    · dsimp only
      rw [kept, last_accepted_snoc, accepted, Option.map_some]
      by_cases same : e.question = q
      · rw [if_pos same, ← same, Keyed.get?_put_self]
        rfl
      · rw [if_neg same, Keyed.get?_put_of_ne (Ne.symm same), held.latest, Option.none_or]
    · rcases Keyed.mem_put (kept ▸ member) with new | old
      · rw [new]
        exact ((accepted_iff _ _).1 accepted).2.2
      · exact held.heard entry old

theorem Recollects.known_iff {s : Session τ} (held : c.Recollects s) (now : τ) (q : Question) (a : Analysis) :
    s.memory.known? now q = some a ↔ ∃ began, lastAccepted? q s.past = some (began, a) ∧ now < began + c.lifetime := by
  unfold Memory.known?
  rw [held.latest]
  cases lastAccepted? q s.past with
  | none => simp
  | some found =>
    obtain ⟨began, b⟩ := found
    by_cases counts : now < began + c.lifetime
    · simp [counts]
    · simp [counts]

theorem Recollects.fresh {s : Session τ} (held : c.Recollects s) {now : τ} {q : Question} {a : Analysis}
    (known : s.memory.known? now q = some a) : a.fallback = false := by
  obtain ⟨⟨expiry, b⟩, found, counts⟩ := Option.bind_eq_some_iff.1 known
  dsimp only at counts
  split at counts
  · cases counts
    exact held.heard _ (Keyed.mem_of_get? found)
  · cases counts

theorem session_recollects (c : Consultation τ) (calls : List (Call τ)) : c.Recollects (c.session calls) := by
  suffices run : ∀ s, c.Recollects s → c.Recollects (calls.foldl c.meet s) from run {} (recollects_begin c)
  induction calls with
  | nil => exact fun s held => held
  | cons e rest ih => exact fun s held => ih _ (held.meet e)

/-- After any calls, the next one gives an analysis without asking exactly where the latest accepted one for its
    question still counts, and gives that one; no fallback is kept, and a call that fails leaves what is kept. -/
theorem session_recalls (c : Consultation τ) (calls : List (Call τ)) (e : Call τ) :
    (∀ a, (c.consult e (c.session calls).memory).1.requests = [] ∧
        (c.consult e (c.session calls).memory).1.result = .ok a ∧ a.fallback = false ↔
      ∃ began, lastAccepted? e.question (c.session calls).past = some (began, a) ∧ e.now < began + c.lifetime) ∧
    (∀ entry ∈ (c.session calls).memory.kept, entry.2.2.fallback = false) ∧
    ((∀ a, (c.consult e (c.session calls).memory).1.result = .ok a → a.fallback = true) →
      (c.consult e (c.session calls).memory).2.kept = (c.session calls).memory.kept) := by
  have held := session_recollects c calls
  generalize c.session calls = s at held
  refine ⟨fun a => ?_, held.heard, fun fails => ?_⟩
  · rw [recalled_iff, ← held.known_iff]
    exact and_iff_left_of_imp held.fresh
  · have none : (c.consult e s.memory).1.accepted? = none := Option.eq_none_iff_forall_ne_some.2 fun a accepted => by
      obtain ⟨-, given, fresh⟩ := (accepted_iff _ _).1 accepted
      rw [fails a given] at fresh
      cases fresh
    rw [consult_kept, none]

end Consultation

def plainReply : NetworkReply :=
  .answered 200 ("\x7b\"choices\": [\x7b\"message\": \x7b\"content\": \"\x7b\\\"status\\\": \\\"native\\\", " ++
    "\\\"note\\\": \\\"Use a webhook.\\\"\x7d\"\x7d\x7d]\x7d").toList []

-- An answer counts for its lifetime and no longer.
example : [3599, 3600].map (fun t => ((onceAMinute.consult ⟨t, t, anyQuestion, .timedOut⟩
    (onceAMinute.session [⟨0, 0, anyQuestion, plainReply⟩]).memory).1.result.toOption.map (·.fallback))) =
    [some false, some true] := by decide +kernel

end PipelineMigration.Enrichment
