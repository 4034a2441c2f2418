import PipelineMigration.Proofs.Capability.Said
import PipelineMigration.Proofs.Enrichment.Absorption
import PipelineMigration.Proofs.Service.RoundTrip
set_option autoImplicit false

/- What requests have the model asked. Each request is served with a memory of its own, so the limit holds for every
   single one and for no two of them together. -/
namespace PipelineMigration.Enrichment

section Consulted

variable {c : Consultation ℚ} {now : ℚ} {m : Memory ℚ}

theorem recent_here (here : ∀ t ∈ m.calls, t = now) : recent now m.calls = m.calls := by
  cases calls : m.calls with
  | nil => rfl
  | cons t rest =>
    have same : t = now := here t (by rw [calls]; exact List.mem_cons_self)
    unfold recent
    rw [List.dropWhile_cons_of_neg]
    rw [same, sub_self]
    decide

theorem closing_kept_of_ne {q other : Question} (apart : other ≠ q) (reply : NetworkReply) (m : Memory ℚ) :
    Keyed.get? other (c.closing now q reply m).2.kept = Keyed.get? other m.kept := by
  unfold Consultation.closing
  split
  · exact Keyed.get?_put_of_ne apart
  · rfl
  · rfl

-- On a clock that stands, the first questions are sent, as many as there is room for.
theorem consult_all_requests (reply : Text → NetworkReply) {qs : List Question} (distinct : qs.Nodup)
    (here : ∀ t ∈ m.calls, t = now) (new : ∀ q ∈ qs, Keyed.get? q m.kept = none) :
    (consultAll c now reply m qs).1.flatMap (·.2.requests) =
      (qs.take (c.limit - m.calls.length).toNat).flatMap c.requests := by
  induction qs generalizing m with
  | nil => rw [List.take_nil]; rfl
  | cons q rest ih =>
    obtain ⟨unlike, others⟩ := List.nodup_cons.1 distinct
    obtain ⟨own, later⟩ := List.forall_mem_cons.1 new
    have unknown : m.known? now q = none := by rw [Memory.known?, own]; rfl
    rw [consult_all_cons, List.flatMap_cons]
    -- A question that is sent takes one place and is remembered; the others are as new as before.
    by_cases room : c.HasRoom now m
    · rw [@Consultation.consult_admitted _ c _ ⟨now, now, q, reply q.capability⟩ m unknown room]
      dsimp only
      rw [recent_here here, ih others]
      · have left : (c.limit - m.calls.length).toNat = (c.limit - (m.calls ++ [now]).length).toNat + 1 := by
          rw [Consultation.HasRoom, recent_here here] at room
          rw [List.length_append, List.length_singleton]
          omega
        rw [closing_calls, left, List.take_succ_cons, List.flatMap_cons]
      · rw [closing_calls]
        intro t member
        rcases List.mem_append.1 member with old | last
        · exact here t old
        · exact List.mem_singleton.1 last
      · intro other among
        have apart : other ≠ q := fun same => unlike (same ▸ among)
        exact (closing_kept_of_ne apart _ _).trans (later other among)
    · rw [@Consultation.consult_full _ c _ ⟨now, now, q, reply q.capability⟩ m unknown room]
      dsimp only
      rw [recent_here here, ih others here later]
      have full : (c.limit - m.calls.length).toNat = 0 := by
        rw [Consultation.HasRoom, recent_here here] at room
        omega
      rw [full]
      rfl

theorem candidate_questions_nodup {verdicts : List Verdict} (distinct : (verdicts.map (·.id)).Nodup)
    (lines : List Text) (project : Text) : ((candidates verdicts).map (questionOf lines project)).Nodup := by
  have ids : ((candidates verdicts).map (·.id)).Nodup :=
    distinct.sublist (((List.take_sublist _ _).trans List.filter_sublist).map _)
  refine List.Nodup.of_map (·.capability) ?_
  rwa [List.map_map]

theorem enrich_requests (now : ℚ) (reply : Text → NetworkReply) (script project : Text) {verdicts : List Verdict}
    (distinct : (verdicts.map (·.id)).Nodup) : (enrich c now reply script project verdicts {}).1.requests =
      (if !c.apiKey.isEmpty then
          (candidates verdicts).map fun v => c.request (questionOf (Text.lines script) project v)
        else []).take c.limit.toNat := by
  have sent := consult_all_requests (c := c) (m := {}) reply
    (candidate_questions_nodup distinct (Text.lines script) project) (List.forall_mem_nil (· = now)) fun _ _ => rfl
  refine sent.trans ?_
  rw [List.length_nil, Int.natCast_zero, Int.sub_zero]
  unfold Consultation.requests
  cases c.apiKey.isEmpty with
  | true =>
    refine Eq.trans ?_ List.take_nil.symm
    exact List.flatMap_eq_nil_iff.2 fun _ _ => rfl
  | false =>
    change (List.flatMap (fun q => [c.request q]) _) = _
    rw [← List.map_eq_flatMap, ← List.map_take, List.map_map, List.map_take]
    rfl

end Consulted

end PipelineMigration.Enrichment

namespace PipelineMigration.Service

open Enrichment

/-- What a request to translate carries. -/
def translatePayload? (request : WebRequest) : Option TranslatePayload := do
  guard (request.method = Endpoint.translate.method ∧ request.path = Endpoint.translate.path)
  let v ← (bodyValue request.body).toOption
  (takeTranslate [.name "body"] v).toOption

section Inquiry

variable {τ : Type} [Clock τ]

/-- What there is to ask the model for a translation: about each verdict that is to have a note, and nothing where the
    script is not migrated, no notes are wanted or there is no key. -/
def inquiry (s : Setup τ) (options : PlanOptions) (script : Text) (wanted : Bool) (project : Text) :
    List CompletionRequest :=
  match Migration.checkOptions options, Migration.extract s.settings script with
  | .ok (), .ok _ =>
    if wanted && !s.consultation.apiKey.isEmpty then
      (candidates (Capability.resolve s.settings.tables (Capability.scan s.settings.tables script))).map fun v =>
        s.consultation.request (questionOf (Text.lines script) project v)
    else []
  | _, _ => []

/-- What there is to ask the model for a request. -/
def Setup.inquiries (s : Setup τ) (request : WebRequest) : List CompletionRequest :=
  ((translatePayload? request).map fun p =>
    inquiry s p.options p.script p.enrich (p.projectContext.getD [])).getD []

/-- All that the model is asked while requests are served, one after the other. -/
def Setup.sent (s : Setup τ) : Archive → List (Moment τ × WebRequest) → List CompletionRequest
  | _, [] => []
  | a, (m, request) :: rest =>
    (answer s m request a).requests ++ s.sent (answer s m request a).archive rest

end Inquiry

section Sent

variable (s : Setup ℚ) (m : Moment ℚ) (a : Archive)

theorem migrate_requests (options : PlanOptions) (script : Text) (wanted : Bool) (project : Text) :
    (migrate s m options script wanted project).2 =
      (inquiry s options script wanted project).take s.consultation.limit.toNat := by
  unfold migrate inquiry
  cases Migration.checkOptions options with
  | error e => exact List.take_nil.symm
  | ok =>
    cases Migration.extract s.settings script with
    | error e => exact List.take_nil.symm
    | ok extraction =>
      dsimp only
      unfold notes
      cases wanted with
      | false => exact List.take_nil.symm
      | true =>
        have distinct := Capability.resolve_ids_nodup s.settings.tables (Capability.scan s.settings.tables script)
        have sent := @enrich_requests s.consultation m.now m.reply script project _ distinct
        rw [Bool.true_and, Bool.true_and]
        generalize Capability.resolve s.settings.tables (Capability.scan s.settings.tables script) = verdicts at sent
        refine Eq.trans ?_ sent
        cases verdicts <;> rfl

theorem translate_requests (options : PlanOptions) (script : Text) (sourceName : Option Text) (wanted : Bool)
    (project : Text) :
    (translate s m options script sourceName wanted project a).requests =
      (inquiry s options script wanted project).take s.consultation.limit.toNat := by
  rw [← migrate_requests s m]
  unfold translate
  generalize migrate s m options script wanted project = served
  obtain ⟨result, requests⟩ := served
  cases result <;> rfl

theorem with_payload_requests {α : Type} (take : Take α) (body : Option Text) (serve : α → Reply)
    (asks : α → List CompletionRequest) (each : ∀ p, (serve p).requests = asks p) :
    (withPayload take body a serve).requests =
      (((bodyValue body).toOption.bind fun v => (take [.name "body"] v).toOption).map asks).getD [] := by
  unfold withPayload
  cases bodyValue body with
  | error fault => cases fault <;> rfl
  | ok v =>
    change _ = (((take [.name "body"] v).toOption).map asks).getD []
    dsimp only
    cases take [.name "body"] v with
    | error faults => rfl
    | ok p => exact each p

theorem unasked {request : WebRequest} (elsewhere : request.method ≠ Endpoint.translate.method ∨
    request.path ≠ Endpoint.translate.path) : s.inquiries request = [] := by
  have other : ¬ (request.method = Endpoint.translate.method ∧ request.path = Endpoint.translate.path) := fun both =>
    elsewhere.elim (· both.1) (· both.2)
  unfold Setup.inquiries translatePayload? guard
  rw [if_neg other]
  rfl

theorem serve_requests {request : WebRequest} {e : Endpoint} (found : Endpoint.ofPath? request.path = some e)
    (method : request.method = e.method) :
    (serve s m request a e).requests = (s.inquiries request).take s.consultation.limit.toNat := by
  by_cases own : e = .translate
  · subst own
    have here : request.method = Endpoint.translate.method ∧ request.path = Endpoint.translate.path :=
      ⟨method, (of_path_translate found).2 rfl⟩
    have served := with_payload_requests a takeTranslate request.body (fun p => replyTranslate s m p a) _ fun p =>
      translate_requests s m a p.options p.script p.sourceName p.enrich (p.projectContext.getD [])
    refine served.trans ?_
    unfold Setup.inquiries translatePayload? guard
    rw [if_pos here]
    -- Both sides read the same payload, and without one nothing is asked.
    change (Option.map _ ((bodyValue request.body).toOption.bind fun v =>
        (takeTranslate [.name "body"] v).toOption)).getD [] =
      ((Option.map _ ((bodyValue request.body).toOption.bind fun v =>
        (takeTranslate [.name "body"] v).toOption)).getD []).take _
    cases (bodyValue request.body).toOption.bind fun v => (takeTranslate [.name "body"] v).toOption with
    | none => exact List.take_nil.symm
    | some p => rfl
  · have elsewhere : request.path ≠ Endpoint.translate.path := fun same => own ((of_path_translate found).1 same)
    rw [unasked s (.inr elsewhere), List.take_nil]
    cases e with
    | health => rfl
    | translate => exact absurd rfl own
    | log => rfl
    | record id => rfl
    | capabilityScan =>
      have served := with_payload_requests a takeCapabilityScan request.body (fun p => replyCapabilityScan s m p a)
        (fun _ => []) fun _ => rfl
      refine served.trans ?_
      cases (bodyValue request.body).toOption.bind fun v => (takeCapabilityScan [.name "body"] v).toOption <;> rfl
    | credentialScan =>
      have silent (p : CredentialPayload) : (replyCredentialScan s m p a).requests = [] := by
        unfold replyCredentialScan scanCredentials
        cases Migration.checkOptions p.options <;> rfl
      have served := with_payload_requests a takeCredentialScan request.body (fun p => replyCredentialScan s m p a)
        (fun _ => []) silent
      refine served.trans ?_
      cases (bodyValue request.body).toOption.bind fun v => (takeCredentialScan [.name "body"] v).toOption <;> rfl

theorem handle_requests (request : WebRequest) :
    (handle s m request a).requests = (s.inquiries request).take s.consultation.limit.toNat := by
  unfold handle
  cases found : Endpoint.ofPath? request.path with
  | none => rw [unasked s (.inr (of_path_elsewhere found)), List.take_nil]
  | some e =>
    dsimp only
    by_cases method : request.method = e.method
    · rw [if_pos (beq_iff_eq.2 method)]
      exact serve_requests s m a found method
    · rw [if_neg (mt beq_iff_eq.1 method)]
      have elsewhere : request.method ≠ Endpoint.translate.method ∨ request.path ≠ Endpoint.translate.path := by
        by_cases own : e = .translate
        · exact .inl (own ▸ method)
        · exact .inr fun same => own ((of_path_translate found).1 same)
      rw [unasked s elsewhere, List.take_nil]

theorem answer_requests (request : WebRequest) :
    (answer s m request a).requests = (s.inquiries request).take s.consultation.limit.toNat := by
  rw [← handle_requests s m a]
  unfold answer
  dsimp only
  split <;> rfl

-- What is sent for some requests is what is sent for each, whatever was served before.
theorem sent_inquiries (asked : List (Moment ℚ × WebRequest)) :
    s.sent a asked = asked.flatMap fun e => (s.inquiries e.2).take s.consultation.limit.toNat := by
  induction asked generalizing a with
  | nil => rfl
  | cons e rest ih =>
    rw [List.flatMap_cons, ← ih (answer s e.1 e.2 a).archive, ← answer_requests s e.1 a e.2]
    rfl

theorem inquiry_length (options : PlanOptions) (script : Text) (wanted : Bool) (project : Text) :
    (inquiry s options script wanted project).length ≤ enrichedLimit := by
  unfold inquiry
  split
  · split
    · rw [List.length_map]
      exact List.length_take_le _ _
    · exact Nat.zero_le _
  · exact Nat.zero_le _

theorem inquiries_length (request : WebRequest) : (s.inquiries request).length ≤ enrichedLimit := by
  unfold Setup.inquiries
  cases translatePayload? request with
  | none => exact Nat.zero_le _
  | some p => exact inquiry_length s _ _ _ _

/-- Every request has its own questions sent up to the limit, whenever it comes and whatever came before: so many go out
    for all of them together, and no more than the limit for each. -/
theorem requests_limited_apart (asked : List (Moment ℚ × WebRequest)) :
    s.sent a asked = (asked.flatMap fun e => (s.inquiries e.2).take s.consultation.limit.toNat) ∧
      (s.sent a asked).length =
        (asked.map fun e => min s.consultation.limit.toNat (s.inquiries e.2).length).sum ∧
      (∀ m request, (answer s m request a).requests.length ≤ min s.consultation.limit.toNat enrichedLimit) := by
  refine ⟨sent_inquiries s a asked, ?_, fun m request => ?_⟩
  · rw [sent_inquiries, List.length_flatMap]
    simp only [List.length_take]
  · rw [answer_requests, List.length_take]
    exact min_le_min_left _ (inquiries_length s request)

end Sent

/-- A service that may ask once a minute. -/
def sparingSetup : Setup ℚ := { consultation := { apiKey := "key", model := "model", limit := 1, lifetime := 86400 } }

def notedRequest : WebRequest :=
  { method := "POST", path := "/api/translate", body := some "\x7b\"script\": \"slackSend()\", \"enrich\": true\x7d" }

-- Two requests, the second a second after the first.
def pressingRequests : List (Moment ℚ × WebRequest) :=
  [(someMoment, notedRequest), ({ someMoment with now := 1 }, notedRequest)]

theorem limit_passed_together : sparingSetup.consultation.limit = 1 ∧
    (∀ e ∈ pressingRequests, ∀ d ∈ pressingRequests, e.1.now - d.1.now < 60) ∧
    (sparingSetup.sent {} pressingRequests).length = 2 := by
  have one : (sparingSetup.inquiries notedRequest).length = 1 := by decide +kernel
  refine ⟨rfl, by decide +kernel, ?_⟩
  rw [sent_inquiries]
  change ((sparingSetup.inquiries notedRequest).take 1 ++
    ((sparingSetup.inquiries notedRequest).take 1 ++ [])).length = 2
  rw [List.length_append, List.length_append, List.length_take, one]
  rfl

end PipelineMigration.Service
