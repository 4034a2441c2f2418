import Mathlib.Data.List.Basic
import PipelineMigration.History.Store
set_option autoImplicit false

/- How a history grows. A record that asks for no id goes to the end, behind all smaller ids; an event changes no
   record. So after any calls the entries that were not removed stand in the order in which they were made, also where
   the id of a record that went is given out again, and each question is answered in that order. -/
namespace PipelineMigration.History

/-- Records with positive ids that ascend. -/
def Ascending (h : History) : Prop := (h.records.Pairwise fun a b => a.id < b.id) ∧ ∀ r ∈ h.records, 0 < r.id

theorem place_last {α : Type} {idOf : α → Int} {entry : α} {entries : List α}
    (below : ∀ e ∈ entries, idOf e < idOf entry) : place idOf entry entries = entries ++ [entry] := by
  induction entries with
  | nil => rfl
  | cons e rest ih =>
    rw [place, if_pos (below e List.mem_cons_self), ih fun d later => below d (List.mem_cons_of_mem _ later)]
    rfl

theorem pairwise_last {α : Type} {idOf : α → Int} {entries : List α} {entry : α}
    (order : entries.Pairwise fun a b => idOf a < idOf b) (above : ∀ e ∈ entries, idOf e < idOf entry) :
    (entries ++ [entry]).Pairwise fun a b => idOf a < idOf b := by
  refine List.pairwise_append.2 ⟨order, List.pairwise_singleton _ _, fun e member f single => ?_⟩
  rw [List.mem_singleton.1 single]
  exact above e member

theorem place_perm {α : Type} (idOf : α → Int) (entry : α) (entries : List α) :
    (place idOf entry entries).Perm (entry :: entries) := by
  induction entries with
  | nil => exact .refl _
  | cons e rest ih =>
    rw [place]
    split
    · exact (ih.cons e).trans (.swap entry e rest)
    · exact .refl _

theorem find_placed {α : Type} {idOf : α → Int} {entry : α} {entries : List α}
    (new : idOf entry ∉ entries.map idOf) :
    (place idOf entry entries).find? (idOf · == idOf entry) = some entry := by
  induction entries with
  | nil => simp [place]
  | cons e rest ih =>
    obtain ⟨here, later⟩ := not_or.1 (mt List.mem_cons.2 new)
    rw [place]
    split
    · rw [List.find?_cons, beq_eq_false_iff_ne.2 (Ne.symm here)]
      exact ih later
    · rw [List.find?_cons, beq_self_eq_true]

variable {h : History}

theorem next_above {ids : List Int} (order : ids.Pairwise (· < ·)) :
    (∀ id ∈ ids, id < nextId ids) ∧ (nextId ids - 1 ∈ ids ∨ ids = []) := by
  rcases List.eq_nil_or_concat ids with rfl | ⟨front, last, rfl⟩
  · exact ⟨List.forall_mem_nil _, .inr rfl⟩
  · rw [List.concat_eq_append] at order ⊢
    have next : nextId (front ++ [last]) = last + 1 := by
      unfold nextId
      rw [List.getLast?_concat]
      rfl
    rw [next]
    refine ⟨fun id member => ?_, .inl (by simp)⟩
    rcases List.mem_append.1 member with before | final
    · have less : id < last := (List.pairwise_append.1 order).2.2 id before last (List.mem_singleton_self _)
      omega
    · rw [List.mem_singleton.1 final]
      omega

theorem next_id_above (ascending : h.Ascending) :
    0 < nextId h.recordIds ∧ ∀ r ∈ h.records, r.id < nextId h.recordIds := by
  obtain ⟨order, positive⟩ := ascending
  obtain ⟨above, -⟩ := next_above (List.pairwise_map.2 order)
  have above : ∀ r ∈ h.records, r.id < nextId h.recordIds := fun r member => above _ (List.mem_map_of_mem member)
  refine ⟨?_, above⟩
  cases same : h.records with
  | nil =>
    unfold recordIds
    rw [same]
    decide
  | cons r rest =>
    have member : r ∈ h.records := by rw [same]; exact List.mem_cons_self
    exact Int.lt_trans (positive r member) (above r member)

theorem record_id {d : RecordDraft} {id : Int} {moment : Text} {r : MigrationRecord}
    (made : d.record? id moment = some r) : r.id = id := by
  unfold RecordDraft.record? at made
  simp only [Option.bind_eq_bind, Option.bind_eq_some_iff] at made
  obtain ⟨_, -, _, -, _, -, _, -, _, -, made⟩ := made
  cases made
  rfl

theorem add_record_placed {d : RecordDraft} {moment : Text} {r : MigrationRecord} {h' : History}
    (added : h.addRecord d moment = .ok (r, h')) : d.record? (d.id.getD (nextId h.recordIds)) moment = some r ∧
      r.id ∉ h.recordIds ∧ h' = { h with records := place (·.id) r h.records } := by
  unfold addRecord at added
  dsimp only at added
  split at added
  · cases added
  · split at added
    · cases added
    · rename_i made
      split at added
      · cases added
      · rename_i new
        cases added
        rw [← record_id made] at new
        exact ⟨made, by simpa using new, rfl⟩

theorem event_id {d : EventDraft} {id : Int} {moment : Text} {e : AuditEvent} (made : d.event? id moment = some e) :
    e.id = id := by
  obtain ⟨_, -, rfl⟩ := Option.map_eq_some_iff.1 made
  rfl

theorem add_event_placed {d : EventDraft} {moment : Text} {e : AuditEvent} {h' : History}
    (added : h.addEvent d moment = .ok (e, h')) : d.event? (d.id.getD (nextId h.eventIds)) moment = some e ∧
      e.id ∉ h.eventIds ∧ h' = { h with events := place (·.id) e h.events } := by
  unfold addEvent at added
  dsimp only at added
  split at added
  · cases added
  · split at added
    · cases added
    · rename_i made
      split at added
      · cases added
      · rename_i new
        cases added
        rw [← event_id made] at new
        exact ⟨made, by simpa using new, rfl⟩

theorem add_record_grows {d : RecordDraft} {moment : Text} {r : MigrationRecord} {h' : History}
    (ascending : h.Ascending) (idless : d.id = none) (added : h.addRecord d moment = .ok (r, h')) :
    d.record? (nextId h.recordIds) moment = some r ∧ h'.records = h.records ++ [r] ∧ h'.Ascending := by
  obtain ⟨above, below⟩ := next_id_above ascending
  obtain ⟨made, -, rfl⟩ := add_record_placed added
  rw [idless, Option.getD_none] at made
  have own : r.id = nextId h.recordIds := record_id made
  have below : ∀ e ∈ h.records, e.id < r.id := by simpa only [own] using below
  have last : place (·.id) r h.records = h.records ++ [r] := place_last below
  refine ⟨made, last, ?_⟩
  unfold Ascending
  dsimp only
  rw [last]
  refine ⟨pairwise_last ascending.1 below, fun e member => ?_⟩
  rcases List.mem_append.1 member with before | new
  · exact ascending.2 e before
  · rwa [List.mem_singleton.1 new, own]

theorem add_event_records {d : EventDraft} {moment : Text} {e : AuditEvent} {h' : History}
    (added : h.addEvent d moment = .ok (e, h')) : h'.records = h.records := by
  obtain ⟨-, -, rfl⟩ := add_event_placed added
  rfl

theorem record_found (ascending : h.Ascending) {r : MigrationRecord} (member : r ∈ h.records) :
    h.record? r.id = some r := by
  have order := ascending.1
  unfold record?
  generalize h.records = records at order member
  induction records with
  | nil => cases member
  | cons e rest ih =>
    obtain ⟨first, later⟩ := List.pairwise_cons.1 order
    rcases List.mem_cons.1 member with rfl | behind
    · rw [List.find?_cons, beq_self_eq_true]
    · have other : (e.id == r.id) = false := beq_eq_false_iff_ne.2 (Int.ne_of_lt (first r behind))
      rw [List.find?_cons, other]
      exact ih later behind

section Calls

/-- What is asked of a history that changes it. -/
inductive Call where
  | addRecord (d : RecordDraft) (moment : Text)
  | removeRecord (id : Int)
  | addEvent (d : EventDraft) (moment : Text)

/-- What a call did. -/
inductive Deed where
  | recorded (r : MigrationRecord)
  | removed (id : Int)
  | noted (e : AuditEvent)
  | nothing

def Call.on (h : History) : Call → Deed × History
  | addRecord d moment => match h.addRecord d moment with
    | .ok (r, h') => (.recorded r, h')
    | .error _ => (.nothing, h)
  | removeRecord id => match within [id] (h.removeRecord id) with
    | .ok (true, h') => (.removed id, h')
    | _ => (.nothing, h)
  | addEvent d moment => match h.addEvent d moment with
    | .ok (e, h') => (.noted e, h')
    | .error _ => (.nothing, h)

/-- What one call after the other did, and the history after them. -/
def run (h : History) : List Call → List Deed × History
  | [] => ([], h)
  | c :: later => ((c.on h).1 :: (run (c.on h).2 later).1, (run (c.on h).2 later).2)

/-- A new entry is given its id, or asks for one above those that are there. -/
def Call.climbs (h : History) : Call → Bool
  | addRecord d _ => d.id.all fun id => h.records.all fun r => r.id < id
  | removeRecord _ => true
  | addEvent d _ => d.id.all fun id => h.events.all fun e => e.id < id

def climbs (h : History) : List Call → Bool
  | [] => true
  | c :: later => c.climbs h && climbs (c.on h).2 later

/-- The id that a call asks for. -/
def Call.asked : Call → Option Int
  | addRecord d _ => d.id
  | removeRecord _ => none
  | addEvent d _ => d.id

theorem unasked_climbs {calls : List Call} (unasked : ∀ c ∈ calls, c.asked = none) : climbs h calls = true := by
  induction calls generalizing h with
  | nil => rfl
  | cons c calls ih =>
    obtain ⟨here, later⟩ := List.forall_mem_cons.1 unasked
    refine Bool.and_eq_true_iff.2 ⟨?_, ih later⟩
    cases c with
    | addRecord d moment =>
      have free : d.id = none := here
      rw [Call.climbs, free]
      rfl
    | removeRecord id => rfl
    | addEvent d moment =>
      have free : d.id = none := here
      rw [Call.climbs, free]
      rfl

def removes (id : Int) (deeds : List Deed) : Bool :=
  deeds.any fun
    | .removed n => n == id
    | _ => false

/-- The records that were made and not removed later, in the order in which they were made. -/
def survivingRecords : List Deed → List MigrationRecord
  | [] => []
  | .recorded r :: later => if removes r.id later then survivingRecords later else r :: survivingRecords later
  | _ :: later => survivingRecords later

/-- The events that were made and whose record was not removed later. -/
def survivingEvents : List Deed → List AuditEvent
  | [] => []
  | .noted e :: later =>
    if e.recordId.any (removes · later) then survivingEvents later else e :: survivingEvents later
  | _ :: later => survivingEvents later

/-- Entries in the order of their ids. -/
structure Ordered (h : History) : Prop where
  records : h.records.Pairwise fun a b => a.id < b.id
  events : h.events.Pairwise fun a b => a.id < b.id

/-- What a history becomes by what was done. -/
def Deed.Makes (h : History) : Deed → History → Prop
  | recorded r, h' => (∀ s ∈ h.records, s.id < r.id) ∧ h' = { h with records := h.records ++ [r] }
  | removed id, h' =>
    h' = { records := h.records.filter fun r => r.id != id, events := h.events.filter fun e => e.recordId != some id }
  | noted e, h' => (∀ f ∈ h.events, f.id < e.id) ∧ h' = { h with events := h.events ++ [e] }
  | nothing, h' => h' = h

theorem remove_record_eq (id : Int) (h : History) : h.removeRecord id =
    if h.records.any (·.id == id) then (true,
      { records := h.records.filter fun r => r.id != id, events := h.events.filter fun e => e.recordId != some id })
    else (false, h) := by
  unfold removeRecord record?
  simp only [List.find?_isSome, List.any_eq_true]

theorem id_above {α : Type} {idOf : α → Int} {entries : List α} (order : entries.Pairwise fun a b => idOf a < idOf b)
    {asked : Option Int} (climbs : (asked.all fun id => entries.all fun e => idOf e < id) = true) :
    ∀ e ∈ entries, idOf e < asked.getD (nextId (entries.map idOf)) := by
  intro e member
  cases asked with
  | none => exact (next_above (List.pairwise_map.2 order)).1 _ (List.mem_map_of_mem member)
  | some id => exact of_decide_eq_true (List.all_eq_true.1 climbs e member)

theorem Call.makes {c : Call} (ordered : h.Ordered) (climbs : c.climbs h = true) : (c.on h).1.Makes h (c.on h).2 := by
  cases c with
  | addRecord d moment =>
    simp only [Call.on]
    cases added : h.addRecord d moment with
    | error e => rfl
    | ok p =>
      obtain ⟨made, -, placed⟩ := add_record_placed added
      have above : ∀ s ∈ h.records, s.id < p.1.id := by
        rw [record_id made]
        exact id_above ordered.records climbs
      exact ⟨above, by rw [placed, place_last above]⟩
  | removeRecord id =>
    simp only [Call.on, within, remove_record_eq]
    split
    · rename_i held
      split at held
      · split at held
        · cases held
          rfl
        · cases held
      · cases held
    · rfl
  | addEvent d moment =>
    simp only [Call.on]
    cases added : h.addEvent d moment with
    | error e => rfl
    | ok p =>
      obtain ⟨made, -, placed⟩ := add_event_placed added
      have above : ∀ f ∈ h.events, f.id < p.1.id := by
        rw [event_id made]
        exact id_above ordered.events climbs
      exact ⟨above, by rw [placed, place_last above]⟩

theorem Deed.Makes.ordered {d : Deed} {h' : History} (makes : d.Makes h h') (ordered : h.Ordered) : h'.Ordered := by
  cases d with
  | recorded r =>
    obtain ⟨above, rfl⟩ := makes
    exact ⟨pairwise_last ordered.records above, ordered.events⟩
  | removed id =>
    obtain rfl := makes
    exact ⟨ordered.records.filter _, ordered.events.filter _⟩
  | noted e =>
    obtain ⟨above, rfl⟩ := makes
    exact ⟨ordered.records, pairwise_last ordered.events above⟩
  | nothing =>
    obtain rfl := makes
    exact ordered

/-- Of the entries that there are, and those that are made, the ones that stay. -/
def Left (h : History) (deeds : List Deed) : History where
  records := (h.records.filter fun r => !removes r.id deeds) ++ survivingRecords deeds
  events := (h.events.filter fun e => !e.recordId.any (removes · deeds)) ++ survivingEvents deeds

@[simp] theorem removes_removed (n id : Int) (later : List Deed) :
    removes n (.removed id :: later) = (id == n || removes n later) := rfl

@[simp] theorem removes_recorded (n : Int) (r : MigrationRecord) (later : List Deed) :
    removes n (.recorded r :: later) = removes n later := rfl

@[simp] theorem removes_noted (n : Int) (e : AuditEvent) (later : List Deed) :
    removes n (.noted e :: later) = removes n later := rfl

@[simp] theorem removes_nothing (n : Int) (later : List Deed) : removes n (.nothing :: later) = removes n later := rfl

theorem Deed.Makes.left {d : Deed} {h' : History} (makes : d.Makes h h') (later : List Deed) :
    Left h' later = Left h (d :: later) := by
  cases d with
  | recorded r =>
    obtain ⟨-, rfl⟩ := makes
    cases gone : removes r.id later <;> simp [Left, survivingRecords, survivingEvents, gone]
  | removed id =>
    obtain rfl := makes
    -- What goes now and what goes later is what goes by the two together.
    have record (n : Int) : (!removes n later && n != id) = !removes n (.removed id :: later) := by
      rw [removes_removed, Bool.not_or, Bool.and_comm, bne_comm]
      rfl
    have event (n : Option Int) :
        (!n.any (removes · later) && n != some id) = !n.any (removes · (.removed id :: later)) := by
      cases n with
      | none => rfl
      | some n => exact record n
    simp only [Left, survivingRecords, survivingEvents, List.filter_filter, record, event]
  | noted e =>
    obtain ⟨-, rfl⟩ := makes
    cases gone : e.recordId.any (removes · later) <;> simp [Left, survivingRecords, survivingEvents, gone]
  | nothing =>
    obtain rfl := makes
    simp [Left, survivingRecords, survivingEvents]

theorem run_left (calls : List Call) (ordered : h.Ordered) (climb : climbs h calls = true) :
    (run h calls).2.Ordered ∧ (run h calls).2 = Left h (run h calls).1 := by
  -- The first call makes the history from which the others go on, and its order is what they rest on.
  induction calls generalizing h with
  | nil =>
    refine ⟨ordered, ?_⟩
    simp [run, Left, removes, survivingRecords, survivingEvents]
  | cons c calls ih =>
    obtain ⟨here, further⟩ := Bool.and_eq_true_iff.1 climb
    have makes := Call.makes ordered here
    obtain ⟨order, left⟩ := ih (makes.ordered ordered) further
    exact ⟨order, left.trans (makes.left _)⟩

theorem storable_natural (n : Nat) : isStorable n = decide ((n : Int) < Number.wordBound) := by
  have low : -Number.wordBound ≤ (n : Int) := by
    unfold Number.wordBound
    omega
  unfold isStorable
  rw [decide_eq_true low, Bool.true_and]

theorem page_slice {α : Type} (limit offset : Nat) (entries : List α) :
    page (some limit) offset entries = (entries.drop offset).take limit := by
  unfold page
  dsimp only
  rw [if_neg (Int.not_lt.2 (Int.natCast_nonneg limit)), Int.toNat_natCast, Int.toNat_natCast]

theorem page_rest {α : Type} (offset : Nat) (entries : List α) : page none offset entries = entries.drop offset := by
  unfold page
  dsimp only
  rw [Int.toNat_natCast]

theorem within_slice {α : Type} (limit offset : Nat) (entries : List α) :
    within [(limit : Int), (offset : Int)] (page (some limit) offset entries) =
      if (limit : Int) < Number.wordBound ∧ (offset : Int) < Number.wordBound then
        .ok ((entries.drop offset).take limit)
      else .error .outOfRange := by
  unfold within
  rw [page_slice]
  simp only [List.all_cons, List.all_nil, Bool.and_true, storable_natural, Bool.and_eq_true, decide_eq_true_eq]

/-- The history tells these records and events, in this order, and a removal takes what belongs to the record. -/
structure Tells (h : History) (records : List MigrationRecord) (events : List AuditEvent) : Prop where
  recent (limit offset : Nat) : within [(limit : Int), (offset : Int)] (h.recentRecords (some limit) offset) =
    if (limit : Int) < Number.wordBound ∧ (offset : Int) < Number.wordBound then
      .ok ((records.reverse.drop offset).take limit)
    else .error .outOfRange
  listed (limit offset : Nat) : within [(limit : Int), (offset : Int)] (h.listRecords (some limit) offset) =
    if (limit : Int) < Number.wordBound ∧ (offset : Int) < Number.wordBound then
      .ok ((records.drop offset).take limit)
    else .error .outOfRange
  listedAll (offset : Nat) : within [(offset : Int)] (h.listRecords none offset) =
    if (offset : Int) < Number.wordBound then .ok (records.drop offset) else .error .outOfRange
  count : h.records.length = records.length
  about (id : Int) : within [id] (h.eventsAbout id) =
    if isStorable id then .ok (events.filter fun e => e.recordId == some id) else .error .outOfRange
  removal (id : Int) : within [id] (h.removeRecord id) =
    if isStorable id then
      .ok (if records.any (·.id == id) then (true,
          { records := records.filter fun r => r.id != id, events := events.filter fun e => e.recordId != some id })
        else (false, h))
    else .error .outOfRange

theorem tells (h : History) : h.Tells h.records h.events where
  recent limit offset := within_slice limit offset h.records.reverse
  listed limit offset := within_slice limit offset h.records
  listedAll offset := by
    unfold within listRecords
    rw [page_rest]
    simp only [List.all_cons, List.all_nil, Bool.and_true, storable_natural, decide_eq_true_eq]
  count := rfl
  about id := by
    unfold within eventsAbout
    rw [List.all_cons, List.all_nil, Bool.and_true]
  removal id := by
    unfold within
    rw [List.all_cons, List.all_nil, Bool.and_true, remove_record_eq]

/-- A record to be of a script, with little else. -/
def plain (script : Text) (id : Option Int := none) : RecordDraft where
  id
  sourceText := some script
  outputText := some []
  readinessScore := some 50
  complexityTier := some "simple"
  extractionConfidence := some 0.5

/-- Calls that give an id out again: the second record goes, with the event about it, and the third takes its id. -/
def reusing : List Call := [.addRecord (plain "a") "t", .addRecord (plain "b") "t",
  .addEvent { action := some .translate, recordId := some 2 } "t", .removeRecord 2, .addRecord (plain "c") "t",
  .addEvent { action := some .capabilityScan, recordId := some 2 } "t"]

end Calls

end PipelineMigration.History
