import Mathlib.Data.List.Basic
import PipelineMigration.Proofs.History.Order
import PipelineMigration.Proofs.Outcome
import PipelineMigration.Proofs.Service.Address
set_option autoImplicit false

/- What a write to the archive does to its history. -/
namespace PipelineMigration.Archive

variable {a a' : Archive}

theorem add_record_history {d : RecordDraft} {moment : Text} {r : MigrationRecord}
    (added : a.addRecord d moment = .ok (r, a')) :
    a.history.addRecord d moment = .ok (r, a'.history) ∧ a'.readable = a.readable := by
  unfold addRecord at added
  split at added
  · cases grown : a.history.addRecord d moment with
    | error e =>
      rw [grown] at added
      cases added
    | ok p =>
      rw [grown] at added
      cases added
      exact ⟨rfl, rfl⟩
  · cases added

theorem add_event_history {d : EventDraft} {moment : Text} {e : AuditEvent}
    (added : a.addEvent d moment = .ok (e, a')) :
    a.history.addEvent d moment = .ok (e, a'.history) ∧ a'.readable = a.readable := by
  unfold addEvent at added
  split at added
  · cases grown : a.history.addEvent d moment with
    | error e =>
      rw [grown] at added
      cases added
    | ok p =>
      rw [grown] at added
      cases added
      exact ⟨rfl, rfl⟩
  · cases added

theorem add_event_records {d : EventDraft} {moment : Text} {e : AuditEvent}
    (added : a.addEvent d moment = .ok (e, a')) :
    a'.history.records = a.history.records ∧ a'.readable = a.readable := by
  obtain ⟨grown, readable⟩ := add_event_history added
  exact ⟨History.add_event_records grown, readable⟩

end PipelineMigration.Archive

/- What each request does to the history. A translation that is answered adds its record, and nothing else changes a
   record. -/
namespace PipelineMigration.Service

open Enrichment

/-- The record of a migration. -/
def recordOf (script : Text) (sourceName : Option Text) (m : Migration) (id : Int) (createdAt : Text) : MigrationRecord :=
  { id, sourceName, sourceText := script, outputText := m.configuration, checklist := m.checklist
    readinessScore := m.readiness.score, complexityTier := m.tier.name
    extractionConfidence := m.extraction.confidence, capabilityCount := m.readiness.total
    variableCount := m.specs.length, reviewCount := m.reviewCount, createdAt }

section Keep

variable {createdAt script : Text} {sourceName : Option Text} {m : Migration} {a : Archive}

theorem record_draft {id : Int} {r : MigrationRecord}
    (made : (recordDraft script sourceName m).record? id createdAt = some r) :
    r = recordOf script sourceName m id createdAt := by
  unfold RecordDraft.record? recordDraft at made
  simp only [Option.bind_eq_bind, Option.bind_some, Option.bind_eq_some_iff, Option.filter_eq_some_iff] at made
  obtain ⟨x, ⟨same, -⟩, made⟩ := made
  cases made
  cases same
  rfl

theorem keep_readable (createdAt script : Text) (sourceName : Option Text) (m : Migration) (a : Archive) :
    (keep createdAt script sourceName m a).2.readable = a.readable := by
  unfold keep
  split
  · rfl
  · rename_i added
    obtain ⟨-, same⟩ := Archive.add_record_history added
    split
    · exact same
    · rename_i noted
      exact (Archive.add_event_records noted).2.trans same

theorem keep_told {id : Int} (ascending : a.history.Ascending)
    (told : (keep createdAt script sourceName m a).1 = some id) :
    (keep createdAt script sourceName m a).2.history.Ascending ∧
      (keep createdAt script sourceName m a).2.history.records =
        a.history.records ++ [recordOf script sourceName m id createdAt] := by
  unfold keep at told ⊢
  split at told
  · cases told
  · rename_i r a' added
    obtain ⟨grown, -⟩ := Archive.add_record_history added
    obtain ⟨made, records, order⟩ := History.add_record_grows ascending rfl grown
    split at told
    · cases told
    · rename_i noted
      obtain ⟨same, -⟩ := Archive.add_event_records noted
      have own : r.id = id := Option.some.inj told
      have shape := record_draft made
      rw [← History.record_id made, own] at shape
      refine ⟨?_, by rw [same, records, shape]⟩
      unfold History.Ascending
      rwa [same]

theorem audit_history (createdAt : Text) (action : AuditAction) (found : Json) (a : Archive) :
    (audit createdAt action found a).history.records = a.history.records ∧
      (audit createdAt action found a).readable = a.readable := by
  unfold audit
  split
  · exact ⟨rfl, rfl⟩
  · rename_i noted
    exact Archive.add_event_records noted

end Keep

/-- What a request to translate carries and what it is answered, where it is answered with a translation. -/
def translation? (request : WebRequest) (response : WebResponse) : Option (TranslatePayload × Json) := do
  guard (request.method = Endpoint.translate.method ∧ request.path = Endpoint.translate.path ∧ response.status = 200)
  let v ← (bodyValue request.body).toOption
  let p ← (takeTranslate [.name "body"] v).toOption
  let said ← response.body
  some (p, said)

theorem translation_here {request : WebRequest} {response : WebResponse} {e : TranslatePayload × Json}
    (told : translation? request response = some e) : request.method = Endpoint.translate.method ∧
      request.path = Endpoint.translate.path ∧ response.status = 200 := by
  unfold translation? guard at told
  by_cases here : request.method = Endpoint.translate.method ∧ request.path = Endpoint.translate.path ∧
      response.status = 200
  · exact here
  · rw [if_neg here] at told
    cases told

theorem translation_elsewhere {request : WebRequest} {response : WebResponse}
    (elsewhere : request.method ≠ Endpoint.translate.method ∨ request.path ≠ Endpoint.translate.path ∨
      response.status ≠ 200) : translation? request response = none := by
  refine Option.eq_none_iff_forall_ne_some.2 fun e told => ?_
  obtain ⟨method, path, status⟩ := translation_here told
  rcases elsewhere with other | other | other
  · exact other method
  · exact other path
  · exact other status

variable {τ : Type} [Clock τ]

theorem migrate_total {s : Setup τ} {m : Moment τ} {options : PlanOptions} {script : Text} {wanted : Bool} {project : Text}
    {done : Migration} (migrated : (migrate s m options script wanted project).1 = .ok done) :
    done.readiness.total = done.verdicts.length := by
  unfold migrate at migrated
  split at migrated
  · cases migrated
  · cases migrated
  · obtain ⟨verdicts, -, made⟩ := Outcome.bind_ok migrated
    have assembled := Outcome.map_error_ok made
    obtain ⟨configuration, -, assembled⟩ := Outcome.bind_ok assembled
    obtain ⟨lint, -, assembled⟩ := Outcome.bind_ok assembled
    cases assembled
    rfl

theorem of_path_elsewhere {path : Text} (none : Endpoint.ofPath? path = .none) : path ≠ Endpoint.translate.path := by
  rintro rfl
  exact absurd none (by decide)

theorem of_path_translate {path : Text} {e : Endpoint} (found : Endpoint.ofPath? path = some e) :
    path = Endpoint.translate.path ↔ e = .translate := by
  constructor
  · rintro rfl
    have own : Endpoint.ofPath? Endpoint.translate.path = some .translate := by decide
    exact Option.some.inj (found.symm.trans own)
  · rintro rfl
    rcases Option.or_eq_some_iff.1 found with fixed | ⟨-, numbered⟩
    · have same := List.find?_some fixed
      exact (beq_iff_eq.1 same).symm
    · obtain ⟨id, -, other⟩ := Option.map_eq_some_iff.1 numbered
      cases other

theorem with_payload_cases {α : Type} (take : Take α) (body : Option Text) (a : Archive) (serve : α → Reply) :
    (∃ v payload, bodyValue body = .ok v ∧ take [.name "body"] v = .ok payload ∧
      withPayload take body a serve = serve payload) ∨
    (withPayload take body a serve).response.status ≠ 200 ∧ (withPayload take body a serve).archive = a := by
  unfold withPayload
  cases read : bodyValue body with
  | error fault => cases fault <;> exact .inr ⟨nofun, rfl⟩
  | ok v =>
    dsimp only
    cases taken : take [.name "body"] v with
    | error faults => exact .inr ⟨nofun, rfl⟩
    | ok payload => exact .inl ⟨v, payload, rfl, taken, rfl⟩

/-- The reply adds the record of the translation that it answers with. -/
def Adds (m : Moment τ) (request : WebRequest) (a : Archive) (reply : Reply) : Prop :=
  ∃ p done enriched, done.readiness.total = done.verdicts.length ∧
    translation? request reply.response =
      some (p, migrationBody done enriched (keep m.createdAt p.script p.sourceName done a).1) ∧
    reply.archive = (keep m.createdAt p.script p.sourceName done a).2

/-- The reply is no translation and leaves the records. -/
def Leaves (request : WebRequest) (a : Archive) (reply : Reply) : Prop :=
  translation? request reply.response = none ∧ reply.archive.history.records = a.history.records ∧
    reply.archive.readable = a.readable

variable (s : Setup τ) (m : Moment τ) (request : WebRequest) (a : Archive)

theorem failed_status (e : Failure) : (WebResponse.failed e).status ≠ 200 := by
  unfold WebResponse.failed
  split <;> exact nofun

theorem reply_translate_cases {v : Json} {p : TranslatePayload} (method : request.method = Endpoint.translate.method)
    (path : request.path = Endpoint.translate.path) (read : bodyValue request.body = .ok v)
    (taken : takeTranslate [.name "body"] v = .ok p) :
    Adds m request a (replyTranslate s m p a) ∨ Leaves request a (replyTranslate s m p a) := by
  unfold replyTranslate translate Served.reply
  have total (done : Migration) : (migrate s m p.options p.script p.enrich (p.projectContext.getD [])).1 = .ok done →
      done.readiness.total = done.verdicts.length := migrate_total
  generalize migrate s m p.options p.script p.enrich (p.projectContext.getD []) = migrated at total
  obtain ⟨result, requests⟩ := migrated
  cases result with
  | error e => exact .inr ⟨translation_elsewhere (.inr (.inr (failed_status e))), rfl, rfl⟩
  | ok done =>
    refine .inl ⟨p, done, p.enrich && hasNote done, total done rfl, ?_, rfl⟩
    unfold translation? guard
    rw [if_pos ⟨method, path, rfl⟩, read]
    change ((takeTranslate [.name "body"] v).toOption >>= _) = _
    rw [taken]
    rfl

omit [Clock τ] in
theorem reply_scan_leaves (script : Text) : (replyCapabilityScan s m script a).archive.history.records = a.history.records ∧
    (replyCapabilityScan s m script a).archive.readable = a.readable := audit_history _ _ _ _

omit [Clock τ] in
theorem reply_credentials_leaves (p : CredentialPayload) :
    (replyCredentialScan s m p a).archive.history.records = a.history.records ∧
      (replyCredentialScan s m p a).archive.readable = a.readable := by
  unfold replyCredentialScan scanCredentials Served.reply
  cases Migration.checkOptions p.options with
  | error e => exact ⟨rfl, rfl⟩
  | ok => exact audit_history _ _ _ _

theorem serve_cases {e : Endpoint} (found : Endpoint.ofPath? request.path = some e) (method : request.method = e.method) :
    Adds m request a (serve s m request a e) ∨ Leaves request a (serve s m request a e) := by
  by_cases own : e = .translate
  · subst own
    have path := (of_path_translate found).2 rfl
    rcases with_payload_cases takeTranslate request.body a fun p => replyTranslate s m p a with
      ⟨v, p, read, taken, same⟩ | ⟨refused, same⟩
    · unfold serve
      rw [same]
      exact reply_translate_cases s m request a method path read taken
    · right
      unfold serve
      exact ⟨translation_elsewhere (.inr (.inr refused)), by rw [same], by rw [same]⟩
  · have elsewhere : ∀ response, translation? request response = none := fun response =>
      translation_elsewhere (.inr (.inl fun same => own ((of_path_translate found).1 same)))
    refine .inr ⟨elsewhere _, ?_⟩
    cases e with
    | health => exact ⟨rfl, rfl⟩
    | translate => exact absurd rfl own
    | log => exact ⟨rfl, rfl⟩
    | record id => exact ⟨rfl, rfl⟩
    | capabilityScan =>
      unfold serve
      rcases with_payload_cases takeCapabilityScan request.body a fun script => replyCapabilityScan s m script a with
        ⟨-, script, -, -, same⟩ | ⟨-, same⟩
      · rw [same]
        exact reply_scan_leaves s m a script
      · rw [same]
        exact ⟨rfl, rfl⟩
    | credentialScan =>
      unfold serve
      rcases with_payload_cases takeCredentialScan request.body a fun p => replyCredentialScan s m p a with
        ⟨-, p, -, -, same⟩ | ⟨-, same⟩
      · rw [same]
        exact reply_credentials_leaves s m a p
      · rw [same]
        exact ⟨rfl, rfl⟩

theorem handle_cases : Adds m request a (handle s m request a) ∨ Leaves request a (handle s m request a) := by
  unfold handle
  cases found : Endpoint.ofPath? request.path with
  | none => exact .inr ⟨translation_elsewhere (.inr (.inl (of_path_elsewhere found))), rfl, rfl⟩
  | some e =>
    dsimp only
    by_cases method : request.method = e.method
    · rw [if_pos (beq_iff_eq.2 method)]
      exact serve_cases s m request a found method
    · rw [if_neg (mt beq_iff_eq.1 method)]
      exact .inr ⟨translation_elsewhere (.inr (.inr nofun)), rfl, rfl⟩

theorem answer_cases : Adds m request a (answer s m request a) ∨ Leaves request a (answer s m request a) := by
  unfold answer
  -- A request for the head alone is answered as any other, but it is no translation.
  by_cases head : request.method = "HEAD".toList
  · rw [if_pos (beq_iff_eq.2 head)]
    have other : request.method ≠ Endpoint.translate.method := by
      rw [head]
      decide
    have silent : ∀ response, translation? request response = none := fun response => translation_elsewhere (.inl other)
    rcases handle_cases s m request a with ⟨_, _, _, -, told, -⟩ | ⟨-, same⟩
    · rw [silent] at told
      cases told
    · exact .inr ⟨silent _, same⟩
  · rw [if_neg (mt beq_iff_eq.1 head)]
    exact handle_cases s m request a

end PipelineMigration.Service
