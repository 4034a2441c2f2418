import Mathlib.Algebra.Order.Ring.Rat
import Mathlib.Data.List.Flatten
import Mathlib.Data.List.Perm.Subperm
import Mathlib.Data.List.TakeWhile
import Mathlib.Tactic.Linarith
import PipelineMigration.Enrichment.Traffic
set_option autoImplicit false

/- The limit on admissions. However consultations overlap, no minute holds more of them than the limit, a question is
   sent only on an admission of its own, and an answer that is remembered costs none. The remembered admissions are
   the last ones, and those before are a minute and more back at the clock's latest reading, so that no minute reaches
   from one of them to a new one. -/
namespace PipelineMigration.Enrichment

section Steps

variable {τ : Type} [Clock τ] {c : Consultation τ}

/-- The admissions that still count at a reading of the clock. -/
def recent (now : τ) (calls : List τ) : List τ := calls.dropWhile fun t => Clock.minute ≤ now - t

-- A consultation begins in one of three ways.
theorem Consultation.opening_cases (c : Consultation τ) (now later : τ) (q : Question) (m : Memory τ) :
    (∃ a, m.known? now q = some a ∧ c.opening now later q m = (.recalled a, m)) ∨
    c.opening now later q m = (.refused, { m with calls := recent later m.calls }) ∨
    (recent later m.calls).length < c.limit ∧
      c.opening now later q m = (.admitted, { m with calls := recent later m.calls ++ [later] }) := by
  unfold opening
  cases known : m.known? now q with
  | some a => exact .inl ⟨a, rfl, rfl⟩
  | none =>
    right
    unfold Memory.admit?
    dsimp only
    by_cases full : c.limit ≤ (m.calls.dropWhile fun t => Clock.minute ≤ later - t).length
    · rw [if_pos full]
      exact .inl rfl
    · rw [if_neg full]
      exact .inr ⟨Int.not_le.1 full, rfl⟩

theorem closing_calls (began : τ) (q : Question) (reply : NetworkReply) (m : Memory τ) :
    (c.closing began q reply m).2.calls = m.calls := by
  unfold Consultation.closing
  split <;> rfl

-- A consultation that begins is answered and changes nothing, is refused, or is admitted at the later reading.
theorem step_call (c : Consultation τ) (s : Traffic τ) (now later : τ) (q : Question) :
    c.step s (.call now later q) = s ∨
    c.step s (.call now later q) = { s with memory := { s.memory with calls := recent later s.memory.calls } } ∨
    (recent later s.memory.calls).length < c.limit ∧ c.step s (.call now later q) = { s with
      memory := { s.memory with calls := recent later s.memory.calls ++ [later] }
      waiting := s.waiting ++ [⟨now, q⟩]
      admissions := s.admissions ++ [(later, q)] } := by
  rcases c.opening_cases now later q s.memory with ⟨a, -, opens⟩ | opens | ⟨room, opens⟩
  · exact .inl (by simp only [Consultation.step, opens])
  · exact .inr (.inl (by simp only [Consultation.step, opens]))
  · exact .inr (.inr ⟨room, by simp only [Consultation.step, opens]⟩)

theorem step_recalled {s : Traffic τ} {now : τ} {q : Question} {a : Analysis} (known : s.memory.known? now q = some a)
    (later : τ) : c.step s (.call now later q) = s := by
  have opens : c.opening now later q s.memory = (.recalled a, s.memory) := by
    unfold Consultation.opening
    rw [known]
  simp only [Consultation.step, opens]

-- What happens without others between is a beginning with its question and its answer right behind.
theorem analyze_run (now : τ) (q : Question) (reply : NetworkReply) {s : Traffic τ} (idle : s.waiting = [])
    (quiet : s.asked = []) :
    (c.run s [.call now now q, .send 0, .answer 0 reply]).memory = (c.analyze now q reply s.memory).2 ∧
      (c.run s [.call now now q, .send 0, .answer 0 reply]).requests =
        s.requests ++ (c.analyze now q reply s.memory).1.requests := by
  unfold Consultation.run Consultation.analyze
  rcases c.opening_cases now now q s.memory with ⟨a, -, opens⟩ | opens | ⟨-, opens⟩
  · simp [Consultation.step, opens, idle, quiet]
  · simp [Consultation.step, opens, idle, quiet]
  · simp [Consultation.step, opens, idle, quiet]

end Steps

section Window

/-- How many readings fall in the minute from an instant. -/
def inMinute (t : ℚ) (readings : List ℚ) : Nat := readings.countP fun d => t ≤ d && d < t + 60

/-- The admissions that are no longer remembered are a minute and more before a reading that was seen, and no minute
    holds more admissions than the limit. -/
structure Limited (limit : Int) (seen : List ℚ) (s : Traffic ℚ) : Prop where
  past : ∃ gone, s.admissions.map (·.1) = gone ++ s.memory.calls ∧ ∀ d ∈ gone, ∃ r ∈ seen, 60 ≤ r - d
  bound : ∀ t, (inMinute t (s.admissions.map (·.1)) : Int) ≤ max limit 0

variable {c : Consultation ℚ} {limit : Int} {seen : List ℚ} {s s' : Traffic ℚ}

theorem limited_begin : Limited limit [] ({} : Traffic ℚ) where
  past := ⟨[], rfl, List.forall_mem_nil _⟩
  bound _ := le_max_right _ _

-- What keeps the admissions keeps the limit.
theorem Limited.same (held : Limited limit seen s) (more : List ℚ) (calls : s'.memory.calls = s.memory.calls)
    (admissions : s'.admissions = s.admissions) : Limited limit (seen ++ more) s' where
  past := by
    obtain ⟨gone, whole, old⟩ := held.past
    refine ⟨gone, by rw [admissions, calls, whole], fun d member => ?_⟩
    obtain ⟨r, read, far⟩ := old d member
    exact ⟨r, List.mem_append_left _ read, far⟩
  bound t := by
    rw [admissions]
    exact held.bound t

-- At a new reading, all that no longer counts is a minute and more back.
theorem Limited.pruned (held : Limited limit seen s) {now : ℚ} (latest : ∀ r ∈ seen, r ≤ now) :
    ∃ gone, s.admissions.map (·.1) = gone ++ recent now s.memory.calls ∧ ∀ d ∈ gone, 60 ≤ now - d := by
  obtain ⟨gone, whole, old⟩ := held.past
  refine ⟨gone ++ s.memory.calls.takeWhile fun t => Clock.minute ≤ now - t, ?_, fun d member => ?_⟩
  · rw [whole, List.append_assoc, recent, List.takeWhile_append_dropWhile]
  · rcases List.mem_append.1 member with before | dropped
    · obtain ⟨r, read, far⟩ := old d before
      have order := latest r read
      linarith
    · have expired := List.mem_takeWhile_imp dropped
      exact of_decide_eq_true expired

-- A minute that holds the new reading holds nothing from a minute and more before it.
theorem in_minute_admitted {gone calls : List ℚ} {now : ℚ} (far : ∀ d ∈ gone, 60 ≤ now - d) {t : ℚ}
    (within : t ≤ now ∧ now < t + 60) : inMinute t (gone ++ (calls ++ [now])) ≤ calls.length + 1 := by
  have none : gone.countP (fun d => t ≤ d && d < t + 60) = 0 := by
    refine List.countP_eq_zero.2 fun d member inside => ?_
    have since := of_decide_eq_true (Bool.and_eq_true_iff.1 inside).1
    have old := far d member
    linarith [within.2]
  unfold inMinute
  rw [List.countP_append, none, Nat.zero_add]
  exact List.countP_le_length.trans (by rw [List.length_append, List.length_singleton])

theorem in_minute_outside {readings : List ℚ} {now t : ℚ} (outside : ¬ (t ≤ now ∧ now < t + 60)) :
    inMinute t (readings ++ [now]) = inMinute t readings := by
  unfold inMinute
  rw [List.countP_append, List.countP_singleton, if_neg (by simpa using outside), Nat.add_zero]

-- One step keeps the limit if the clock does not go back.
theorem Limited.step (held : Limited c.limit seen s) (e : Event ℚ) (steady : (seen ++ e.readings).Pairwise (· ≤ ·)) :
    Limited c.limit (seen ++ e.readings) (c.step s e) := by
  cases e with
  | call now later q =>
    have latest : ∀ r ∈ seen, r ≤ later := fun r read =>
      (List.pairwise_append.1 steady).2.2 r read later (by simp [Event.readings])
    obtain ⟨gone, whole, far⟩ := held.pruned latest
    have past : ∀ d ∈ gone, ∃ r ∈ seen ++ [now, later], 60 ≤ r - d := fun d member => ⟨later, by simp, far d member⟩
    rcases step_call c s now later q with same | refused | ⟨room, admits⟩
    · rw [same]
      exact held.same _ rfl rfl
    · rw [refused]
      exact ⟨⟨gone, whole, past⟩, held.bound⟩
    · have admitted : (s.admissions ++ [(later, q)]).map (·.1) = gone ++ (recent later s.memory.calls ++ [later]) := by
        rw [List.map_append, whole, List.append_assoc]
        rfl
      rw [admits]
      refine ⟨⟨gone, admitted, past⟩, fun t => ?_⟩
      dsimp only
      by_cases within : t ≤ later ∧ later < t + 60
      · have few : inMinute t (gone ++ (recent later s.memory.calls ++ [later])) ≤ (recent later s.memory.calls).length + 1 :=
          in_minute_admitted far within
        rw [admitted]
        refine le_trans ?_ (le_max_left _ _)
        omega
      · rw [List.map_append, List.map_singleton, in_minute_outside within]
        exact held.bound t
  | send i =>
    cases waits : s.waiting[i]? <;> simp only [Consultation.step, waits]
    · exact held.same _ rfl rfl
    · exact held.same _ rfl rfl
  | abandon i => exact held.same _ rfl rfl
  | answer i reply =>
    cases asks : s.asked[i]? <;> simp only [Consultation.step, asks]
    · exact held.same _ rfl rfl
    · exact held.same _ (closing_calls _ _ _ _) rfl

theorem Limited.run (held : Limited c.limit seen s) (events : List (Event ℚ))
    (steady : (seen ++ events.flatMap Event.readings).Pairwise (· ≤ ·)) :
    Limited c.limit (seen ++ events.flatMap Event.readings) (c.run s events) := by
  induction events generalizing seen s with
  | nil =>
    rw [List.flatMap_nil, List.append_nil]
    exact held
  | cons e rest ih =>
    rw [List.flatMap_cons, ← List.append_assoc] at steady ⊢
    exact ih (held.step e (List.pairwise_append.1 steady).1) steady

end Window

section Requests

variable {τ : Type} [Clock τ] {c : Consultation τ} {s : Traffic τ}

/-- What was sent and what may still be sent is admitted, question by question. -/
def Covered (c : Consultation τ) (s : Traffic τ) : Prop :=
  (s.requests ++ s.waiting.flatMap fun w => c.requests w.question).Subperm (s.admissions.flatMap fun a => c.requests a.2)

theorem Covered.step (held : Covered c s) (e : Event τ) : Covered c (c.step s e) := by
  unfold Covered at held ⊢
  cases e with
  | call now later q =>
    rcases step_call c s now later q with same | refused | ⟨-, admits⟩
    · rwa [same]
    · rwa [refused]
    · rw [admits]
      dsimp only
      rw [List.flatMap_append, List.flatMap_append, ← List.append_assoc]
      exact held.append (List.Subperm.refl _)
  | send i =>
    cases waits : s.waiting[i]? with
    | none =>
      simp only [Consultation.step, waits]
      exact held
    | some w =>
      simp only [Consultation.step, waits]
      obtain ⟨within, own⟩ := List.getElem?_eq_some_iff.1 waits
      have order : (w :: s.waiting.eraseIdx i).Perm s.waiting := own ▸ List.getElem_cons_eraseIdx_perm within
      have sent := order.flatMap_right fun w => c.requests w.question
      rw [List.append_assoc]
      exact (sent.append_left _).subperm.trans held
  | abandon i =>
    have fewer : (s.waiting.eraseIdx i).Sublist s.waiting := List.eraseIdx_sublist _ _
    exact ((fewer.flatMap _).append_left _).subperm.trans held
  | answer i reply =>
    cases asks : s.asked[i]? <;> simp only [Consultation.step, asks] <;> exact held

theorem Covered.run (held : Covered c s) (events : List (Event τ)) : Covered c (c.run s events) := by
  induction events generalizing s with
  | nil => exact held
  | cons e rest ih => exact ih (held.step e)

end Requests

/-- On a clock that does not go back, every minute holds at most so many admissions as the limit says; whatever is
    sent is sent on an admission, each its own; and a remembered answer changes nothing. -/
theorem admissions_limited (c : Consultation ℚ) (events : List (Event ℚ))
    (steady : (events.flatMap Event.readings).Pairwise (· ≤ ·)) :
    (∀ t, (inMinute t ((c.run {} events).admissions.map (·.1)) : Int) ≤ max c.limit 0) ∧
      (c.run {} events).requests.Subperm ((c.run {} events).admissions.flatMap fun a => c.requests a.2) ∧
      ∀ now later q a, (c.run {} events).memory.known? now q = some a →
        c.step (c.run {} events) (.call now later q) = c.run {} events := by
  have limited : Limited c.limit ([] ++ events.flatMap Event.readings) (c.run {} events) := limited_begin.run events steady
  have covered : Covered c (c.run {} events) := Covered.run (s := {}) (List.Subperm.refl []) events
  refine ⟨limited.bound, ?_, fun now later q a known => step_recalled known later⟩
  exact (List.sublist_append_left _ _).subperm.trans covered

def onceAMinute : Consultation ℚ := { apiKey := "key", model := "model", limit := 1, lifetime := 3600 }

def anyQuestion : Question := { capability := "slack", usage := [], project := [] }

/-- Three calls, the last a minute after the first, which has been sent by then. -/
def spacedCalls : List (Event ℚ) :=
  [.call 0 0 anyQuestion, .send 0, .call 59 59 anyQuestion, .call 60 60 anyQuestion]

/-- The call within the minute is refused and the one at its end admitted. -/
theorem spaced_calls_limited : (spacedCalls.flatMap Event.readings).Pairwise (· ≤ ·) ∧
    (onceAMinute.run {} spacedCalls).admissions.map (·.1) = [0, 60] ∧
    inMinute 0 ((onceAMinute.run {} spacedCalls).admissions.map (·.1)) = 1 ∧
    (∀ t, (inMinute t ((onceAMinute.run {} spacedCalls).admissions.map (·.1)) : Int) ≤ max onceAMinute.limit 0) := by
  have steady : (spacedCalls.flatMap Event.readings).Pairwise (· ≤ ·) := by decide +kernel
  exact ⟨steady, by decide +kernel, by decide +kernel, (admissions_limited onceAMinute spacedCalls steady).1⟩

end PipelineMigration.Enrichment
