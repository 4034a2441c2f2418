import PipelineMigration.Proofs.Service.RoundTrip
set_option autoImplicit false

/- What a translation leaves in the history. A record that is told of is there with its event. A translation that tells
   of none has left none, unless the record could be written and its event could not: then the record stays. -/
namespace PipelineMigration.Service

open Enrichment

/-- The history has come to hold one more record, and one more event, which is about its translation. -/
structure Stored (before after : History) (r : MigrationRecord) : Prop where
  new : r.id ∉ before.recordIds
  records : after.records.Perm (r :: before.records)
  found : after.record? r.id = some r
  event : ∃ e, e.action = .translate ∧ e.recordId = some r.id ∧ after.events.Perm (e :: before.events)

/-- The record of a migration can be written, but not its event. -/
def Splits (createdAt script : Text) (sourceName : Option Text) (m : Migration) (a : Archive) : Prop :=
  ∃ r b, a.addRecord (recordDraft script sourceName m) createdAt = .ok (r, b) ∧
    ∃ fault, b.addEvent (translationEvent m r.id) createdAt = .error fault

section Keep

variable {createdAt script : Text} {sourceName : Option Text} {m : Migration} {a b c : Archive}

theorem record_written {r : MigrationRecord}
    (added : a.addRecord (recordDraft script sourceName m) createdAt = .ok (r, b)) :
    r = recordOf script sourceName m r.id createdAt ∧ r.id ∉ a.history.recordIds ∧
      b.history.records.Perm (r :: a.history.records) ∧ b.history.record? r.id = some r ∧
      b.history.events = a.history.events := by
  obtain ⟨made, new, grown⟩ := History.add_record_placed (Archive.add_record_history added).1
  have own : r.id = _ := History.record_id made
  rw [grown]
  refine ⟨?_, new, History.place_perm _ r _, History.find_placed new, rfl⟩
  rw [own]
  exact record_draft made

theorem event_written {id : Int} {e : AuditEvent} (added : b.addEvent (translationEvent m id) createdAt = .ok (e, c)) :
    e.action = .translate ∧ e.recordId = some id ∧ c.history.events.Perm (e :: b.history.events) ∧
      c.history.records = b.history.records := by
  obtain ⟨made, -, grown⟩ := History.add_event_placed (Archive.add_event_history added).1
  obtain ⟨_, same, rfl⟩ := Option.map_eq_some_iff.1 made
  cases same
  rw [grown]
  exact ⟨rfl, rfl, History.place_perm _ _ _, rfl⟩

theorem keep_cases (createdAt script : Text) (sourceName : Option Text) (m : Migration) (a : Archive) :
    (∃ fault, a.addRecord (recordDraft script sourceName m) createdAt = .error fault ∧
      keep createdAt script sourceName m a = (none, a)) ∨
    (∃ r b fault, a.addRecord (recordDraft script sourceName m) createdAt = .ok (r, b) ∧
      b.addEvent (translationEvent m r.id) createdAt = .error fault ∧
      keep createdAt script sourceName m a = (none, b)) ∨
    ∃ r b e c, a.addRecord (recordDraft script sourceName m) createdAt = .ok (r, b) ∧
      b.addEvent (translationEvent m r.id) createdAt = .ok (e, c) ∧
      keep createdAt script sourceName m a = (some r.id, c) := by
  unfold keep
  cases recorded : a.addRecord (recordDraft script sourceName m) createdAt with
  | error fault => exact .inl ⟨fault, rfl, rfl⟩
  | ok first =>
    obtain ⟨r, b⟩ := first
    dsimp only
    cases noted : b.addEvent (translationEvent m r.id) createdAt with
    | error fault => exact .inr (.inl ⟨r, b, fault, rfl, noted, rfl⟩)
    | ok second => exact .inr (.inr ⟨r, b, second.1, second.2, rfl, noted, rfl⟩)

theorem keep_stored {id : Int} (told : (keep createdAt script sourceName m a).1 = some id) :
    Stored a.history (keep createdAt script sourceName m a).2.history (recordOf script sourceName m id createdAt) := by
  rcases keep_cases createdAt script sourceName m a with
    ⟨_, _, same⟩ | ⟨_, _, _, _, _, same⟩ | ⟨r, b, e, c, recorded, noted, same⟩
  · rw [same] at told
    cases told
  · rw [same] at told
    cases told
  · rw [same] at told ⊢
    cases told
    obtain ⟨shape, new, records, found, events⟩ := record_written recorded
    obtain ⟨action, about, more, kept⟩ := event_written noted
    rw [← shape]
    exact
      { new := new
        records := by rwa [kept]
        found := by rwa [History.record?, kept]
        event := ⟨e, action, about, by rwa [← events]⟩ }

theorem keep_split (split : Splits createdAt script sourceName m a) :
    (keep createdAt script sourceName m a).1 = none ∧ ∃ r,
      r = recordOf script sourceName m r.id createdAt ∧
      (keep createdAt script sourceName m a).2.history.records.Perm (r :: a.history.records) ∧
      (keep createdAt script sourceName m a).2.history.events = a.history.events := by
  obtain ⟨r, b, recorded, fault, refused⟩ := split
  obtain ⟨shape, -, records, -, events⟩ := record_written recorded
  unfold keep
  rw [recorded]
  dsimp only
  rw [refused]
  exact ⟨rfl, r, shape, records, events⟩

theorem keep_untold_iff : ((keep createdAt script sourceName m a).1 = none ↔
      (keep createdAt script sourceName m a).2.history.records = a.history.records) ↔
    ¬ Splits createdAt script sourceName m a := by
  have longer {records : List MigrationRecord} {r : MigrationRecord} (more : records.Perm (r :: a.history.records)) :
      records ≠ a.history.records := by
    intro same
    have length := more.length_eq
    rw [same, List.length_cons] at length
    omega
  rcases keep_cases createdAt script sourceName m a with
    ⟨fault, refused, same⟩ | ⟨r, b, fault, recorded, refused, same⟩ | ⟨r, b, e, c, recorded, noted, same⟩
  · rw [same]
    refine iff_of_true (iff_of_true rfl rfl) ?_
    rintro ⟨r, b, recorded, -⟩
    cases refused.symm.trans recorded
  -- The writes split: nothing is told of, and yet the record has been added.
  · rw [same]
    obtain ⟨-, -, records, -, -⟩ := record_written recorded
    exact iff_of_false (fun both => longer records (both.1 rfl)) fun whole => whole ⟨r, b, recorded, fault, refused⟩
  · rw [same]
    obtain ⟨-, -, records, -, -⟩ := record_written recorded
    obtain ⟨-, -, -, kept⟩ := event_written noted
    refine iff_of_true (iff_of_false (fun none => nomatch none) ?_) ?_
    · rw [kept]
      exact longer records
    · rintro ⟨_, _, again, fault, refused⟩
      cases recorded.symm.trans again
      cases noted.symm.trans refused

end Keep

section Translate

variable {τ : Type} [Clock τ] {s : Setup τ} {m : Moment τ} {options : PlanOptions} {script project : Text}
  {wanted : Bool} {done : Migration}

theorem migrate_plain (migrated : (migrate s m options script false project).1 = .ok done) :
    Migration.translate s.settings script options m.stamp = .ok done := by
  unfold migrate at migrated
  unfold Migration.translate
  cases checked : Migration.checkOptions options with
  | error e =>
    rw [checked] at migrated
    cases migrated
  | ok =>
    cases extracted : Migration.extract s.settings script with
    | error e =>
      rw [checked, extracted] at migrated
      cases migrated
    | ok extraction =>
      rw [checked, extracted] at migrated
      exact Outcome.map_error_ok migrated

theorem translate_done (migrated : (migrate s m options script wanted project).1 = .ok done)
    (sourceName : Option Text) (a : Archive) :
    (translate s m options script sourceName wanted project a).result =
        .ok { migration := done, enriched := wanted && hasNote done
              recordId := (keep m.createdAt script sourceName done a).1 } ∧
      (translate s m options script sourceName wanted project a).archive =
        (keep m.createdAt script sourceName done a).2 := by
  unfold translate
  generalize migrate s m options script wanted project = served at migrated
  obtain ⟨result, requests⟩ := served
  cases migrated
  exact ⟨rfl, rfl⟩

/-- A translation whose migration succeeds is answered with it, whatever the history takes. -/
theorem translate_persists (migrated : (migrate s m options script wanted project).1 = .ok done)
    (sourceName : Option Text) (a : Archive) :
    ∃ told after, (translate s m options script sourceName wanted project a).result =
        .ok { migration := done, enriched := wanted && hasNote done, recordId := told } ∧
      (translate s m options script sourceName wanted project a).archive = after ∧
      (wanted = false → Migration.translate s.settings script options m.stamp = .ok done) ∧
      (∀ id, told = some id → Stored a.history after.history (recordOf script sourceName done id m.createdAt)) ∧
      ((told = none ↔ after.history.records = a.history.records) ↔ ¬ Splits m.createdAt script sourceName done a) ∧
      (Splits m.createdAt script sourceName done a → told = none ∧ ∃ r,
        r = recordOf script sourceName done r.id m.createdAt ∧ after.history.records.Perm (r :: a.history.records) ∧
        after.history.events = a.history.events) := by
  obtain ⟨answered, kept⟩ := translate_done migrated sourceName a
  refine ⟨_, _, answered, kept, ?_, fun id => keep_stored, keep_untold_iff, keep_split⟩
  rintro rfl
  exact migrate_plain migrated

end Translate

/-- An archive that takes records and no events. -/
def eventless : Archive := { keepsEvents := false }

theorem make_kept : ∃ done, (migrate freshSetup someMoment {} "sh 'make'" false []).1 = .ok done ∧
    (keep someMoment.createdAt "sh 'make'" none done {}).1 = some 1 ∧
    (keep someMoment.createdAt "sh 'make'" none done eventless).1 = none ∧
    (keep someMoment.createdAt "sh 'make'" none done eventless).2.history.recordIds = [1] := by
  have kept : (migrate freshSetup someMoment {} "sh 'make'" false []).1.toOption.map (fun done =>
      ((keep someMoment.createdAt "sh 'make'" none done {}).1,
        (keep someMoment.createdAt "sh 'make'" none done eventless).1,
        (keep someMoment.createdAt "sh 'make'" none done eventless).2.history.recordIds)) =
          some (some 1, none, [1]) := by
    decide +kernel
  cases migrated : (migrate freshSetup someMoment {} "sh 'make'" false []).1 with
  | error fault =>
    rw [migrated] at kept
    cases kept
  | ok done =>
    rw [migrated] at kept
    obtain ⟨whole, split⟩ := Prod.mk.inj (Option.some.inj kept)
    exact ⟨done, rfl, whole, Prod.mk.inj split⟩

theorem make_stored : ∃ done after, (migrate freshSetup someMoment {} "sh 'make'" false []).1 = .ok done ∧
    (translate freshSetup someMoment {} "sh 'make'" none false [] {}).result =
      .ok { migration := done, enriched := false, recordId := some 1 } ∧
    (translate freshSetup someMoment {} "sh 'make'" none false [] {}).archive = after ∧
    Migration.translate {} "sh 'make'" {} [] = .ok done ∧
    Stored {} after.history (recordOf "sh 'make'" none done 1 []) := by
  obtain ⟨done, migrated, whole, -⟩ := make_kept
  obtain ⟨told, after, answered, kept, plain, stored, -⟩ := translate_persists migrated none {}
  have same := (translate_done migrated none {}).1
  obtain ⟨-, -, own⟩ := Translated.mk.inj (Except.ok.inj (answered.symm.trans same))
  obtain rfl : told = some 1 := own.trans whole
  exact ⟨done, after, migrated, answered, kept, plain rfl, stored 1 rfl⟩

theorem eventless_record_untold : ∃ done, eventless.history.recordIds = [] ∧
    (translate freshSetup someMoment {} "sh 'make'" none false [] eventless).result =
      .ok { migration := done, enriched := false, recordId := none } ∧
    (translate freshSetup someMoment {} "sh 'make'" none false [] eventless).archive.history.recordIds = [1] := by
  obtain ⟨done, migrated, -, untold, stays⟩ := make_kept
  obtain ⟨answered, kept⟩ := translate_done migrated none eventless
  refine ⟨done, rfl, answered.trans ?_, ?_⟩
  · rw [untold]
    rfl
  · rw [kept]
    exact stays

end PipelineMigration.Service
