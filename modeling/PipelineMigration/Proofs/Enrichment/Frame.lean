import Mathlib.Data.List.Forall2
import PipelineMigration.Enrichment.Round
import PipelineMigration.Proofs.Enrichment.Absorption
import PipelineMigration.Proofs.Enrichment.Recollection
set_option autoImplicit false

/- Enriching one verdict after the other is a round in which each task takes its turns without others between. -/
namespace PipelineMigration.Enrichment

variable {τ : Type} [Clock τ] {c : Consultation τ} (now : τ)

/-- The turns of tasks one after the other, on a clock that stands, from a place on. -/
def oneByOne (now : τ) (reply : Text → NetworkReply) : Nat → List Question → List (Turn τ)
  | _, [] => []
  | i, q :: rest => .start i now now :: .send i :: .answer i (reply q.capability) :: oneByOne now reply (i + 1) rest

/-- What a task is when its consultation has come to an end. -/
def finalTask (said : Question × Consulted) : Task τ :=
  { question := said.1, stage := if brokeOff said then .broken else .ended }

def notedBy (notes : List (Text × Text)) (said : Question × Consulted) : List (Text × Text) :=
  ((noteOf? said).map fun n => Keyed.put n.1 n.2 notes).getD notes

theorem noted_pairs (said : List (Question × Consulted)) :
    said.foldl notedBy [] = Keyed.ofPairs (said.filterMap noteOf?) := by
  rw [Keyed.ofPairs, List.foldl_filterMap]
  congr 1
  funext notes e
  unfold notedBy
  cases noteOf? e <;> rfl

omit [Clock τ] in
theorem final_over_iff (said : List (Question × Consulted)) :
    ((said.map finalTask : List (Task τ)).all (·.stage.isOver)) = true ↔ said.countP brokeOff = 0 := by
  rw [List.all_map, List.all_eq_true, List.countP_eq_zero]
  refine forall₂_congr fun e _ => ?_
  cases broke : brokeOff e <;> simp [finalTask, broke, Stage.isOver]

omit [Clock τ] in
theorem task_here (done rest : List (Task τ)) (t : Task τ) : (done ++ t :: rest)[done.length]? = some t := by simp

omit [Clock τ] in
theorem task_set (done rest : List (Task τ)) (t next : Task τ) :
    (done ++ t :: rest).set done.length next = done ++ next :: rest := by simp

-- The three turns of a task without others between are its consultation.
theorem conduct_task (s : Traffic τ) (done rest : List (Task τ)) (notes : List (Text × Text))
    (requests : List CompletionRequest) (q : Question) (reply : NetworkReply) :
    c.conduct ⟨s, done ++ ⟨q, .idle⟩ :: rest, notes, requests⟩
        [.start done.length now now, .send done.length, .answer done.length reply] =
      ⟨{ s with memory := (c.consult ⟨now, now, q, reply⟩ s.memory).2 },
        done ++ finalTask (q, (c.consult ⟨now, now, q, reply⟩ s.memory).1) :: rest,
        notedBy notes (q, (c.consult ⟨now, now, q, reply⟩ s.memory).1),
        requests ++ (c.consult ⟨now, now, q, reply⟩ s.memory).1.requests⟩ := by
  unfold Consultation.conduct Consultation.consult
  rcases c.opening_cases now now q s.memory with ⟨a, -, opens⟩ | opens | ⟨-, opens⟩
  · simp only [List.foldl_cons, List.foldl_nil, Consultation.turn, task_here, opens, Round.finish, Round.remember,
      Round.reach, task_set]
    cases fresh : a.fallback <;> simp [finalTask, notedBy, noteOf?, brokeOff, fresh]
  · simp [Consultation.turn, opens, Round.finish, Round.remember, Round.reach, finalTask, notedBy, noteOf?, brokeOff,
      fallbackAnalysis]
  -- Sending and the answer are left, and the reply decides how the task ends.
  · simp only [List.foldl_cons, List.foldl_nil, Consultation.turn, task_here, opens, Round.remember, Round.reach,
      task_set]
    unfold Consultation.closing
    cases c.hear q reply with
    | ok a =>
      simp only [Round.finish, Round.reach, task_set]
      cases fresh : a.fallback <;> simp [finalTask, notedBy, noteOf?, brokeOff, fresh]
    | error fault =>
      cases fault <;> simp [Round.finish, Round.reach, finalTask, notedBy, noteOf?, brokeOff, fallbackAnalysis]

theorem conduct_one_by_one (reply : Text → NetworkReply) (qs : List Question) (s : Traffic τ) (done : List (Task τ))
    (notes : List (Text × Text)) (requests : List CompletionRequest) :
    c.conduct ⟨s, done ++ qs.map fun q => ⟨q, .idle⟩, notes, requests⟩ (oneByOne now reply done.length qs) =
      ⟨{ s with memory := (consultAll c now reply s.memory qs).2 },
        done ++ (consultAll c now reply s.memory qs).1.map finalTask,
        (consultAll c now reply s.memory qs).1.foldl notedBy notes,
        requests ++ (consultAll c now reply s.memory qs).1.flatMap (·.2.requests)⟩ := by
  induction qs generalizing s done notes requests with
  | nil => simp [consultAll, oneByOne, Consultation.conduct]
  | cons q rest ih =>
    have turns : oneByOne now reply done.length (q :: rest) =
        [.start done.length now now, .send done.length, .answer done.length (reply q.capability)] ++
          oneByOne now reply (done.length + 1) rest := rfl
    rw [turns, Consultation.conduct, List.foldl_append]
    change c.conduct (c.conduct _ _) _ = _
    rw [List.map_cons, conduct_task, consult_all_cons]
    generalize c.consult ⟨now, now, q, reply q.capability⟩ s.memory = consulted
    have further := ih { s with memory := consulted.2 } (done ++ [finalTask (q, consulted.1)])
      (notedBy notes (q, consulted.1)) (requests ++ consulted.1.requests)
    rw [List.length_append, List.append_assoc, List.append_assoc, List.append_assoc] at further
    exact further

/-- A round comes to the same as enriching. -/
structure Matches (verdicts : List Verdict) (r : Round τ) (done : Enriched × Memory τ) : Prop where
  memory : r.traffic.memory = done.2
  requests : r.requests = done.1.requests
  outcome : ∀ out, r.outcome? verdicts = some out ↔ done.1.result = .ok out

theorem enrich_one_by_one (reply : Text → NetworkReply) (script project : Text) (verdicts : List Verdict)
    (s : Traffic τ) : Matches verdicts
      (c.conduct (.start s script project verdicts)
        (oneByOne now reply 0 ((candidates verdicts).map (questionOf (Text.lines script) project))))
      (enrich c now reply script project verdicts s.memory) := by
  have start : (⟨s, [] ++ ((candidates verdicts).map (questionOf (Text.lines script) project)).map fun q =>
      ⟨q, .idle⟩, [], []⟩ : Round τ) = .start s script project verdicts := by
    rw [List.nil_append, List.map_map]
    rfl
  have whole := conduct_one_by_one (c := c) now reply
    ((candidates verdicts).map (questionOf (Text.lines script) project)) s [] [] []
  rw [start] at whole
  change c.conduct _ (oneByOne now reply 0 _) = _ at whole
  unfold enrich
  rw [whole]
  dsimp only
  generalize consultAll c now reply s.memory _ = consulted
  obtain ⟨said, memory⟩ := consulted
  refine ⟨rfl, rfl, fun out => ?_⟩
  unfold Round.outcome?
  dsimp only
  rw [List.nil_append, noted_pairs]
  by_cases unbroken : said.countP brokeOff = 0
  · rw [if_pos ((final_over_iff said).2 unbroken), if_pos unbroken, Option.some_inj, Except.ok.injEq]
  · rw [if_neg (mt (final_over_iff said).1 unbroken), if_neg unbroken]
    exact iff_of_false nofun nofun

end PipelineMigration.Enrichment

/- Enriching touches nothing but notes. Whatever turns the tasks take, what they remember and what they note is what the
   model said of the very question, and each task sends one question at most. -/
namespace PipelineMigration.Enrichment

section Heard

variable {τ : Type}

theorem of_members_capability {capability : Text} {members : List (Text × Json)} {a : Analysis}
    (heard : Analysis.ofMembers capability members = .ok a) : a.capability = capability := by
  unfold Analysis.ofMembers at heard
  dsimp only at heard
  split at heard
  · cases heard
  · split at heard
    · cases heard
    · split at heard
      all_goals
        obtain ⟨x, -, rest⟩ := Outcome.bind_ok heard
        cases rest
        rfl

theorem hear_capability {c : Consultation τ} {q : Question} {reply : NetworkReply} {a : Analysis}
    (heard : c.hear q reply = .ok a) : a.capability = q.capability := by
  unfold Consultation.hear at heard
  split at heard
  · cases heard
  · split at heard
    · cases heard
    · exact of_members_capability heard

/-- Every analysis that is kept is what one of the replies said of its question. -/
def Memory.Heard (c : Consultation τ) (replies : List NetworkReply) (m : Memory τ) : Prop :=
  ∀ entry ∈ m.kept, ∃ reply ∈ replies, c.hear entry.1 reply = .ok entry.2.2

variable [Clock τ] {c : Consultation τ} {replies : List NetworkReply} {m : Memory τ}

theorem Memory.Heard.known {now : τ} {q : Question} {a : Analysis} (heard : m.Heard c replies)
    (known : m.known? now q = some a) : ∃ reply ∈ replies, c.hear q reply = .ok a := by
  obtain ⟨⟨expiry, b⟩, found, counts⟩ := Option.bind_eq_some_iff.1 known
  dsimp only at counts
  split at counts
  · cases counts
    exact heard _ (Keyed.mem_of_get? found)
  · cases counts

theorem Memory.Heard.closing {reply : NetworkReply} (heard : m.Heard c replies) (received : reply ∈ replies)
    (began : τ) (q : Question) : (c.closing began q reply m).2.Heard c replies := by
  unfold Consultation.closing
  cases said : c.hear q reply with
  | ok a =>
    intro entry member
    rcases Keyed.mem_put member with new | old
    · rw [new]
      exact ⟨reply, received, said⟩
    · exact heard entry old
  | error fault => cases fault <;> exact heard

theorem Memory.Heard.step {s : Traffic τ} (heard : s.memory.Heard c replies) {e : Event τ}
    (received : ∀ reply ∈ e.replies, reply ∈ replies) : (c.step s e).memory.Heard c replies := by
  cases e with
  | call now later q =>
    have same : (c.step s (.call now later q)).memory.kept = s.memory.kept := by
      rcases step_call c s now later q with same | same | ⟨-, same⟩ <;> rw [same]
    unfold Memory.Heard
    rwa [same]
  | send i => cases waits : s.waiting[i]? <;> simp only [Consultation.step, waits] <;> exact heard
  | abandon i => exact heard
  | answer i reply =>
    cases asks : s.asked[i]? with
    | none => simpa only [Consultation.step, asks] using heard
    | some w =>
      have arrived : reply ∈ replies := received reply List.mem_cons_self
      simpa only [Consultation.step, asks] using heard.closing arrived w.began w.question

theorem Memory.Heard.run {s : Traffic τ} (heard : s.memory.Heard c replies) {events : List (Event τ)}
    (received : ∀ reply ∈ events.flatMap Event.replies, reply ∈ replies) :
    (c.run s events).memory.Heard c replies := by
  induction events generalizing s with
  | nil => exact heard
  | cons e rest ih =>
    obtain ⟨here, later⟩ := List.forall_mem_append.1 received
    exact ih (heard.step here) later

end Heard

section Turns

variable {τ : Type} [Clock τ] {c : Consultation τ} {replies : List NetworkReply} {r : Round τ}

/-- One of the replies said so of a question about the capability, and the note is that of the analysis. -/
def Accepted (c : Consultation τ) (replies : List NetworkReply) (id note : Text) : Prop :=
  ∃ q a, ∃ reply ∈ replies, q.capability = id ∧ c.hear q reply = .ok a ∧
    a.capability = id ∧ a.fallback = false ∧ a.note = note

/-- The tasks ask what they were to ask, each sends one question at most, and what is kept and noted was heard. -/
structure Sound (c : Consultation τ) (replies : List NetworkReply) (asked : List Question) (r : Round τ) : Prop where
  questions : r.tasks.map (·.question) = asked
  memory : r.traffic.memory.Heard c replies
  notes : ∀ n ∈ r.notes, n.1 ∈ asked.map (·.capability) ∧ Accepted c replies n.1 n.2
  requests : r.requests.length ≤ r.tasks.countP (·.stage.isSpent)

variable {asked : List Question} {i : Nat} {q : Question} {stage : Stage τ}

omit [Clock τ] in
theorem Sound.remember (sound : Sound c replies asked r) {memory : Memory τ} (heard : memory.Heard c replies) :
    Sound c replies asked (r.remember memory) :=
  { sound with memory := heard }

omit [Clock τ] in
theorem Sound.reach (sound : Sound c replies asked r) (here : r.tasks[i]? = some ⟨q, stage⟩) {next : Stage τ}
    {sent : List CompletionRequest}
    (room : sent.length + (if stage.isSpent then 1 else 0) ≤ if next.isSpent then 1 else 0) :
    Sound c replies asked ({ r with requests := r.requests ++ sent }.reach i q next) := by
  obtain ⟨inside, same⟩ := List.getElem?_eq_some_iff.1 here
  refine { sound with questions := ?_, requests := ?_ }
  · have own : (r.tasks.map (·.question))[i]? = some q := by rw [List.getElem?_map, here]; rfl
    obtain ⟨_, self⟩ := List.getElem?_eq_some_iff.1 own
    unfold Round.reach
    rw [List.map_set, ← sound.questions]
    dsimp only
    rw [← self, List.set_getElem_self]
  · have held := sound.requests
    have counted : (if stage.isSpent then 1 else 0) ≤ r.tasks.countP (·.stage.isSpent) := by
      split
      · rename_i spent
        refine List.countP_pos_iff.2 ⟨_, List.mem_of_getElem? here, spent⟩
      · exact Nat.zero_le _
    unfold Round.reach
    dsimp only
    -- The task is counted where it was and where it goes, so the room it makes is what it sends.
    rw [List.length_append, List.countP_set inside, same]
    dsimp only
    omega

omit [Clock τ] in
theorem Sound.hold (sound : Sound c replies asked r) (here : r.tasks[i]? = some ⟨q, stage⟩) {next : Stage τ}
    (room : (if stage.isSpent then 1 else 0) ≤ if next.isSpent then 1 else 0) :
    Sound c replies asked (r.reach i q next) := by
  have moved := @Sound.reach _ _ _ _ _ _ _ _ sound here next [] (by rwa [List.length_nil, Nat.zero_add])
  rwa [List.append_nil] at moved

omit [Clock τ] in
theorem Sound.finish (sound : Sound c replies asked r) (here : r.tasks[i]? = some ⟨q, stage⟩) {a : Analysis}
    (heard : a.fallback = false → ∃ reply ∈ replies, c.hear q reply = .ok a) :
    Sound c replies asked (r.finish i q a) := by
  have reached : Sound c replies asked (r.reach i q .ended) := by
    refine sound.hold here ?_
    split
    · exact Nat.le_refl 1
    · exact Nat.zero_le 1
  unfold Round.finish
  dsimp only
  cases fresh : a.fallback with
  | true => exact reached
  | false =>
    obtain ⟨reply, received, said⟩ := heard fresh
    refine { reached with notes := fun n member => ?_ }
    rcases Keyed.mem_put member with new | old
    · rw [new]
      refine ⟨?_, q, a, reply, received, rfl, said, hear_capability said, fresh, rfl⟩
      rw [← sound.questions, List.map_map]
      exact List.mem_map_of_mem (List.mem_of_getElem? here)
    · exact reached.notes n old

theorem Sound.turn (sound : Sound c replies asked r) {t : Turn τ}
    (received : ∀ reply ∈ t.replies, reply ∈ replies) :
    Sound c replies asked (c.turn r t) := by
  cases t with
  | start i now later =>
    unfold Consultation.turn
    dsimp only
    split
    · rename_i q here
      have remembered (calls : List τ) : Sound c replies asked (r.remember { r.traffic.memory with calls }) :=
        sound.remember sound.memory
      rcases c.opening_cases now later q r.traffic.memory with ⟨a, known, opens⟩ | opens | ⟨-, opens⟩
      -- An analysis that is recalled was heard before, whoever asked.
      · rw [opens]
        exact (sound.remember sound.memory).finish here fun _ => sound.memory.known known
      · rw [opens]
        dsimp only
        exact (remembered (recent later r.traffic.memory.calls)).finish here fun fresh => nomatch fresh
      · rw [opens]
        dsimp only
        exact (remembered (recent later r.traffic.memory.calls ++ [later])).hold here (Nat.zero_le _)
    · exact sound
  | send i =>
    unfold Consultation.turn
    dsimp only
    split
    · rename_i q began here
      have one : (c.requests q).length ≤ 1 := by
        unfold Consultation.requests
        split <;> simp
      exact sound.reach here one
    · exact sound
  | abandon i =>
    unfold Consultation.turn
    dsimp only
    split
    · rename_i q began here
      exact sound.finish here fun fresh => nomatch fresh
    · exact sound
  | answer i reply =>
    unfold Consultation.turn
    dsimp only
    split
    · rename_i q began here
      have arrived : reply ∈ replies := received reply List.mem_cons_self
      have remembered := sound.remember (sound.memory.closing arrived began q)
      unfold Consultation.closing at remembered ⊢
      cases said : c.hear q reply with
      | ok a =>
        rw [said] at remembered
        exact remembered.finish here fun _ => ⟨reply, arrived, said⟩
      | error fault =>
        rw [said] at remembered
        cases fault with
        | rejected => exact remembered.finish here fun fresh => nomatch fresh
        | overflow => exact remembered.hold here (Nat.le_refl 1)
    · exact sound
  | elsewhere e => exact { sound with memory := sound.memory.step received }

theorem Sound.conduct (sound : Sound c replies asked r) {turns : List (Turn τ)}
    (received : ∀ reply ∈ turns.flatMap Turn.replies, reply ∈ replies) :
    Sound c replies asked (c.conduct r turns) := by
  induction turns generalizing r with
  | nil => exact sound
  | cons t rest ih =>
    obtain ⟨here, later⟩ := List.forall_mem_append.1 received
    exact ih (sound.turn here) later

end Turns

section Frame

variable {τ : Type} {verdicts : List Verdict}

/-- Verdicts that are not enriched: those with native support, and those behind the first ten of the others. -/
def Spared (verdicts : List Verdict) (v : Verdict) : Prop :=
  v.tier = .native ∨ v ∈ (verdicts.filter (·.tier != .native)).drop enrichedLimit

theorem spared_unlisted (distinct : (verdicts.map (·.id)).Nodup) {v : Verdict} (member : v ∈ verdicts)
    (spared : Spared verdicts v) : v.id ∉ (candidates verdicts).map (·.id) := by
  intro listed
  obtain ⟨u, among, same⟩ := List.mem_map.1 listed
  obtain ⟨inside, foreign⟩ := List.mem_filter.1 (List.mem_of_mem_take among)
  obtain rfl : u = v := List.inj_on_of_nodup_map distinct inside member same
  rcases spared with native | behind
  · rw [native] at foreign
    cases foreign
  -- No verdict is both among the first ten and behind them.
  · have others : ((verdicts.filter (·.tier != .native)).map (·.id)).Nodup :=
      distinct.sublist (List.filter_sublist.map _)
    have split := List.Nodup.of_map _ others
    rw [← List.take_append_drop enrichedLimit (verdicts.filter (·.tier != .native))] at split
    exact (List.nodup_append.1 split).2.2 u among u behind rfl

/-- What enriching may make of a verdict: a note at most, one that the model gave for its capability. -/
structure Renoted (c : Consultation τ) (replies : List NetworkReply) (verdicts : List Verdict)
    (v w : Verdict) : Prop where
  frame : { w with enrichmentNote := v.enrichmentNote } = v
  spared : Spared verdicts v → w = v
  noted : w = v ∨ ∃ note, w.enrichmentNote = some note ∧ Accepted c replies v.id note

theorem with_notes_renoted {c : Consultation τ} {replies : List NetworkReply} (distinct : (verdicts.map (·.id)).Nodup)
    {notes : List (Text × Text)}
    (heard : ∀ n ∈ notes, n.1 ∈ (candidates verdicts).map (·.id) ∧ Accepted c replies n.1 n.2) :
    List.Forall₂ (Renoted c replies verdicts) verdicts (withNotes notes verdicts) := by
  refine List.forall₂_map_right_iff.2 (List.forall₂_same.2 fun v member => ?_)
  cases found : Keyed.get? v.id notes with
  | none => exact ⟨rfl, fun _ => rfl, .inl rfl⟩
  | some note =>
    obtain ⟨listed, accepted⟩ := heard _ (Keyed.mem_of_get? found)
    have touched : ¬ Spared verdicts v := fun spared => spared_unlisted distinct member spared listed
    exact ⟨rfl, fun spared => absurd spared touched, .inr ⟨note, rfl, accepted⟩⟩

variable [Clock τ]

end Frame

-- Four verdicts: the first is native, the third has been asked about before, and the last is not answered in time.
def mixedVerdicts : List Verdict :=
  let other (id : Text) : Verdict := { id, tier := .limited, note := [], hits := [], confidence := 0.9 }
  [{ other "maven-invoker" with tier := .native }, other "slack", other "sonar", other "jira"]

def generous : Consultation ℚ := { apiKey := "key", model := "model", limit := 5, lifetime := 3600 }

def earlierCall : List (Event ℚ) :=
  [.call 0 0 { capability := "sonar", usage := [], project := [] }, .send 0, .answer 0 plainReply]

-- The tasks begin in another order than they stand in, the first that is sent is the last to be answered, and another
-- consultation comes between.
def mixedTurns : List (Turn ℚ) :=
  [.start 2 1 1, .start 0 1 1, .send 0, .elsewhere (.call 1 1 anyQuestion), .start 1 1 1, .send 2, .elsewhere (.send 0),
    .answer 2 .timedOut, .elsewhere (.answer 0 .timedOut), .answer 0 plainReply]

end PipelineMigration.Enrichment
