import PipelineMigration.History.Record
import PipelineMigration.Number.Integer
set_option autoImplicit false

/- The history: migration records and audit events, each in the order of their ids. A new entry
   takes the id after the last one, so that the order is that of creation unless ids are asked
   for; a record takes its events with it when it goes. The service reaches the history
   through an archive, where each kind of write may fail on its own, and so may reading. -/
namespace PipelineMigration

structure History where
  records : List MigrationRecord := []
  events : List AuditEvent := []

inductive HistoryError where
  /-- An entry lacks something, or asks for an id that is taken. -/
  | refused
  /-- The history cannot be read or written. -/
  | unavailable
  /-- A number has more than sixty-four bits. -/
  | outOfRange
deriving DecidableEq

def HistoryError.message : HistoryError → Text
  | refused => "<database error>"
  | unavailable => "<database error>"
  | outOfRange => "Python int too large to convert to SQLite INTEGER"

namespace History

/-- Numbers that an entry can hold. -/
def isStorable (n : Int) : Bool := -Number.wordBound ≤ n && n < Number.wordBound

/-- A result that counts only when the numbers it was asked with can be held. -/
def within {α : Type} (numbers : List Int) (result : α) : Except HistoryError α :=
  if numbers.all isStorable then .ok result else .error .outOfRange

/-- The id after the last of ascending ids. -/
def nextId (ids : List Int) : Int := (ids.getLast?.map (· + 1)).getD 1

/-- Puts an entry in its place among entries of ascending ids. -/
def place {α : Type} (idOf : α → Int) (entry : α) : List α → List α
  | [] => [entry]
  | e :: rest => if idOf e < idOf entry then e :: place idOf entry rest else entry :: e :: rest

theorem mem_place {α : Type} {idOf : α → Int} {entry e : α} {entries : List α} :
    e ∈ place idOf entry entries ↔ e = entry ∨ e ∈ entries := by
  induction entries with
  | nil => simp [place]
  | cons d rest ih =>
    rw [place]
    split
    · simp only [List.mem_cons, ih]; grind
    · simp

/-- Entries of ascending ids stay so when a new id comes in. -/
theorem pairwise_place {α : Type} {idOf : α → Int} {entry : α} {entries : List α}
    (ascending : entries.Pairwise fun a b => idOf a < idOf b)
    (new : ∀ e ∈ entries, idOf e ≠ idOf entry) :
    (place idOf entry entries).Pairwise fun a b => idOf a < idOf b := by
  induction entries with
  | nil => simp [place]
  | cons d rest ih =>
    obtain ⟨first, later⟩ := List.pairwise_cons.1 ascending
    rw [place]
    split <;> rename_i before
    · refine List.pairwise_cons.2 ⟨fun e he => ?_, ih later fun e he => new e (by simp [he])⟩
      rcases mem_place.1 he with rfl | he
      · exact before
      · exact first e he
    · have here := new d (by simp)
      refine List.pairwise_cons.2 ⟨fun e he => ?_, ascending⟩
      rcases List.mem_cons.1 he with rfl | he
      · omega
      · have := first e he; omega

/-- Entries from an offset on, at most so many; a negative count is no bound and a negative
    offset none. -/
def page {α : Type} (limit : Option Int) (offset : Int) (entries : List α) : List α :=
  let rest := entries.drop offset.toNat
  match limit with
  | none => rest
  | some n => if n < 0 then rest else rest.take n.toNat

def recordIds (h : History) : List Int := h.records.map (·.id)
def eventIds (h : History) : List Int := h.events.map (·.id)

def addRecord (d : RecordDraft) (moment : Text) (h : History) :
    Except HistoryError (MigrationRecord × History) :=
  let id := d.id.getD (nextId h.recordIds)
  if !d.numbers.all isStorable then .error .outOfRange
  else match d.record? id moment with
  | none => .error .refused
  | some r =>
    if h.recordIds.contains id then .error .refused
    else .ok (r, { h with records := place (·.id) r h.records })

def addEvent (d : EventDraft) (moment : Text) (h : History) :
    Except HistoryError (AuditEvent × History) :=
  let id := d.id.getD (nextId h.eventIds)
  if !d.numbers.all isStorable then .error .outOfRange
  else match d.event? id moment with
  | none => .error .refused
  | some e =>
    if h.eventIds.contains id then .error .refused
    else .ok (e, { h with events := place (·.id) e h.events })

def record? (id : Int) (h : History) : Option MigrationRecord := h.records.find? (·.id == id)
def event? (id : Int) (h : History) : Option AuditEvent := h.events.find? (·.id == id)

/-- Whether there was a record, and the history without it and its events. -/
def removeRecord (id : Int) (h : History) : Bool × History :=
  if (h.record? id).isSome then
    (true, {
      records := h.records.filter fun r => r.id != id
      events := h.events.filter fun e => e.recordId != some id })
  else (false, h)

def removeEvent (id : Int) (h : History) : Bool × History :=
  if (h.event? id).isSome then (true, { h with events := h.events.filter fun e => e.id != id })
  else (false, h)

/-- Records, the first first. -/
def listRecords (limit : Option Int) (offset : Int) (h : History) : List MigrationRecord :=
  page limit offset h.records

def listEvents (limit : Option Int) (offset : Int) (h : History) : List AuditEvent :=
  page limit offset h.events

/-- Records, the latest first. -/
def recentRecords (limit : Option Int) (offset : Int) (h : History) : List MigrationRecord :=
  page limit offset h.records.reverse

/-- A count that bounds unless it is absent or zero. -/
def boundOf (limit : Option Int) : Option Int := limit.filter (· != 0)

/-- Records with a lower score, the lowest first. -/
def recordsBelow (score : Int) (limit : Option Int) (h : History) : List MigrationRecord :=
  page (boundOf limit) 0 <|
    (h.records.filter fun r => r.readinessScore < score).mergeSort fun a b =>
      a.readinessScore ≤ b.readinessScore

def eventsOf (action : AuditAction) (limit : Option Int) (offset : Int) (h : History) :
    List AuditEvent :=
  page (boundOf limit) offset (h.events.filter fun e => e.action == action)

def eventsAbout (recordId : Int) (h : History) : List AuditEvent :=
  h.events.filter fun e => e.recordId == some recordId

end History

structure Archive where
  history : History := {}
  keepsRecords : Bool := true
  keepsEvents : Bool := true
  readable : Bool := true

namespace Archive

/-- An archive that has lost its entries and takes no more. -/
def lost : Archive := { keepsRecords := false, keepsEvents := false, readable := false }

def addRecord (d : RecordDraft) (moment : Text) (a : Archive) :
    Except HistoryError (MigrationRecord × Archive) :=
  if a.keepsRecords then
    (a.history.addRecord d moment).map fun (r, h) => (r, { a with history := h })
  else .error .unavailable

def addEvent (d : EventDraft) (moment : Text) (a : Archive) :
    Except HistoryError (AuditEvent × Archive) :=
  if a.keepsEvents then
    (a.history.addEvent d moment).map fun (e, h) => (e, { a with history := h })
  else .error .unavailable

/-- What a question asked with some numbers says of the history. -/
def ask {α : Type} (numbers : List Int) (question : History → α) (a : Archive) :
    Except HistoryError α :=
  if a.readable then History.within numbers (question a.history) else .error .unavailable

def record? (id : Int) (a : Archive) : Except HistoryError (Option MigrationRecord) :=
  a.ask [id] (History.record? id)

def recent (limit offset : Int) (a : Archive) : Except HistoryError (List MigrationRecord) :=
  a.ask [limit, offset] (History.recentRecords (some limit) offset)

end Archive
end PipelineMigration
