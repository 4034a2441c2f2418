import Mathlib.Data.List.Forall2
import Mathlib.Data.List.Induction
import PipelineMigration.Proofs.Service.Recording
set_option autoImplicit false

/- The log gives back what was translated. After any requests to a service that began with an empty history, the log
   holds the answered translations, and each is shown with what was asked and what was answered. -/
namespace PipelineMigration.Service

open Enrichment

section Shown

/-- Two members that are there and the same. -/
def Shared (a b : Option Json) : Prop := ∃ v, a = some v ∧ b = some v

/-- A member that lists values, and one that counts them. -/
def Counted (values count : Option Json) : Prop := ∃ vs : List Json, values = some (.array vs) ∧ count = some (.nat vs.length)

/-- An entry of the log for what a request carried and what was answered. -/
structure Lists (p : TranslatePayload) (said shown : Json) : Prop where
  id : Shared (said.get? "record_id") (shown.get? "id")
  sourceName : shown.get? "source_name" = some (optionalText p.sourceName)
  score : Shared ((said.get? "summary").bind (·.get? "score")) (shown.get? "readiness_score")
  tier : Shared (said.get? "complexity_tier") (shown.get? "complexity_tier")
  capabilityCount : Counted (said.get? "verdicts") (shown.get? "plugin_count")
  variableCount : Counted (said.get? "variables") (shown.get? "variable_count")
  reviewCount : Shared (said.get? "review_count") (shown.get? "review_count")

/-- The entry in full. -/
structure Recounts (p : TranslatePayload) (said shown : Json) : Prop extends Lists p said shown where
  script : shown.get? "source_text" = some (.string p.script)
  configuration : Shared (said.get? "configuration") (shown.get? "output_text")
  checklist : Shared (said.get? "checklist") (shown.get? "checklist")

/-- The record of a translation that was answered with its id. -/
def Records (e : TranslatePayload × Json) (r : MigrationRecord) : Prop :=
  ∃ done enriched createdAt, done.readiness.total = done.verdicts.length ∧
    e.2 = migrationBody done enriched (some r.id) ∧ r = recordOf e.1.script e.1.sourceName done r.id createdAt

variable {e : TranslatePayload × Json} {r : MigrationRecord}

theorem Records.lists (records : Records e r) (more : List (String × Json)) :
    Lists e.1 e.2 (.ofMembers (recordMembers r ++ more)) := by
  obtain ⟨p, said⟩ := e
  obtain ⟨done, enriched, createdAt, total, answered, same⟩ := records
  dsimp only at answered same
  generalize r.id = id at answered same
  subst answered same
  exact
    { id := ⟨_, rfl, rfl⟩
      sourceName := rfl
      score := ⟨_, rfl, rfl⟩
      tier := ⟨_, rfl, rfl⟩
      capabilityCount := ⟨_, rfl, by rw [List.length_map, ← total]; rfl⟩
      variableCount := ⟨_, rfl, by rw [List.length_map]; rfl⟩
      reviewCount := ⟨_, rfl, rfl⟩ }

theorem Records.recounts (records : Records e r) : Recounts e.1 e.2 (recordDetailBody r) := by
  have listed : Lists e.1 e.2 (recordDetailBody r) := records.lists _
  obtain ⟨p, said⟩ := e
  obtain ⟨done, enriched, createdAt, -, answered, same⟩ := records
  dsimp only at answered same
  generalize r.id = id at answered same
  subst answered same
  exact { toLists := listed, script := rfl, configuration := ⟨_, rfl, rfl⟩, checklist := ⟨_, rfl, rfl⟩ }

end Shown

section Get

variable {τ : Type} [Clock τ] (s : Setup τ) (m : Moment τ) {path : Text} {e : Endpoint}

theorem answer_get (found : Endpoint.ofPath? path = some e) (method : e.method = "GET".toList)
    (query : List (Text × Text)) (body : Option Text) (a : Archive) :
    answer s m ⟨"GET", path, query, body⟩ a = serve s m ⟨"GET", path, query, body⟩ a e := by
  unfold answer handle
  rw [found]
  dsimp only
  rw [method]
  rfl

theorem log_path : Endpoint.ofPath? Endpoint.log.path = some .log := by decide

theorem respond_record {a : Archive} {r : MigrationRecord} (readable : a.readable = true) (order : a.history.Ascending)
    (member : r ∈ a.history.records) (storable : History.isStorable r.id = true) :
    respondRecord (Text.ofInt r.id) a = .ok (recordDetailBody r) := by
  have positive : 0 < r.id := order.2 r member
  have held : a.record? r.id = .ok (some r) := by
    unfold Archive.record? Archive.ask History.within
    rw [if_pos readable, History.record_found order member, List.all_cons, storable]
    rfl
  unfold respondRecord
  rw [take_record_id (by omega) storable]
  dsimp only
  rw [held]
  rfl

theorem respond_log {a : Archive} {query : List (Text × Text)} {page : LogPage} (readable : a.readable = true)
    (taken : takeLogPage query = .ok page) : respondLog query a =
      if History.isStorable page.offset then
        .ok (list recordBody ((a.history.records.reverse.drop page.offset.toNat).take page.limit.toNat))
      else .broken HistoryError.outOfRange.message := by
  obtain ⟨least, greatest, -⟩ := log_page_bounds taken
  have bounded : History.isStorable page.limit = true := by
    unfold History.isStorable Number.wordBound
    rw [decide_eq_true (by omega), decide_eq_true (by omega)]
    rfl
  have sliced : History.recentRecords (some page.limit) page.offset a.history =
      (a.history.records.reverse.drop page.offset.toNat).take page.limit.toNat := by
    unfold History.recentRecords History.page
    dsimp only
    rw [if_neg (by omega)]
  unfold respondLog
  rw [taken]
  dsimp only
  unfold Archive.recent Archive.ask History.within
  rw [if_pos readable, List.all_cons, bounded, Bool.true_and, List.all_cons, List.all_nil, Bool.and_true, sliced]
  split <;> rfl

end Get

section Course

/-- The history that requests have made, and the requests with what they were answered. -/
structure Course where
  archive : Archive := {}
  answered : List (WebRequest × WebResponse) := []

/-- The translations that were answered. -/
def Course.translations (c : Course) : List (TranslatePayload × Json) :=
  c.answered.filterMap fun e => translation? e.1 e.2

/-- Whether an answer tells the id of a record, one that the history can hold. -/
def isWritten (said : Json) : Bool :=
  match said.get? "record_id" with
  | some (.int id) => History.isStorable id
  | _ => false

/-- What the history and the answers so far have to do with each other. -/
structure Course.Kept (c : Course) : Prop where
  order : c.archive.history.Ascending
  records : List.Forall₂ Records c.translations c.archive.history.records
  readable : c.archive.readable = true

theorem Course.Kept.recorded {c : Course} (held : c.Kept) {e : TranslatePayload × Json} (member : e ∈ c.translations) :
    ∃ r ∈ c.archive.history.records, Records e r := by
  have paired := held.records
  generalize c.translations = es, c.archive.history.records = rs at member paired ⊢
  induction paired with
  | nil => cases member
  | cons own _ ih =>
    rcases List.mem_cons.1 member with rfl | later
    · exact ⟨_, List.mem_cons_self, own⟩
    · obtain ⟨r, found, records⟩ := ih later
      exact ⟨r, List.mem_cons_of_mem _ found, records⟩

variable {τ : Type} [Clock τ]

def Setup.take (s : Setup τ) (c : Course) (asked : Moment τ × WebRequest) : Course where
  archive := (answer s asked.1 asked.2 c.archive).archive
  answered := c.answered ++ [(asked.2, (answer s asked.1 asked.2 c.archive).response)]

def Setup.run (s : Setup τ) (asked : List (Moment τ × WebRequest)) : Course := asked.foldl s.take {}

theorem translations_take (s : Setup τ) (c : Course) (asked : Moment τ × WebRequest) : (s.take c asked).translations =
    c.translations ++ (translation? asked.2 (answer s asked.1 asked.2 c.archive).response).toList := by
  unfold Course.translations Setup.take
  dsimp only
  rw [List.filterMap_append, List.filterMap_cons]
  cases translation? asked.2 (answer s asked.1 asked.2 c.archive).response <;> rfl

theorem kept_begin : ({} : Course).Kept where
  order := ⟨List.Pairwise.nil, List.forall_mem_nil _⟩
  records := .nil
  readable := rfl

theorem written_told {done : Migration} {enriched : Bool} {told : Option Int}
    (written : isWritten (migrationBody done enriched told) = true) : ∃ id, told = some id ∧ History.isStorable id = true := by
  cases told with
  | none => cases written
  | some id => exact ⟨id, rfl, written⟩

theorem Course.Kept.take {s : Setup τ} {c : Course} (held : c.Kept) (asked : Moment τ × WebRequest)
    (written : ∀ e ∈ (s.take c asked).translations, isWritten e.2 = true) : (s.take c asked).Kept := by
  have translations := translations_take s c asked
  rw [translations] at written
  rcases answer_cases s asked.1 asked.2 c.archive with ⟨p, done, enriched, total, told, same⟩ | ⟨silent, records, readable⟩
  · rw [told] at translations written
    obtain ⟨id, kept, -⟩ := written_told (written _ (List.mem_append_right _ (List.mem_singleton_self _)))
    obtain ⟨order, records⟩ := keep_told held.order kept
    refine ⟨?_, ?_, ?_⟩
    · unfold Setup.take
      rwa [same]
    · rw [translations]
      unfold Setup.take
      rw [same, records, kept]
      exact List.rel_append held.records (.cons ⟨done, enriched, asked.1.createdAt, total, rfl, rfl⟩ .nil)
    · unfold Setup.take
      rw [same]
      exact (keep_readable _ _ _ _ _).trans held.readable
  · rw [silent, Option.toList_none, List.append_nil] at translations
    refine ⟨?_, ?_, readable.trans held.readable⟩
    · unfold History.Ascending Setup.take
      rw [records]
      exact held.order
    · rw [translations]
      unfold Setup.take
      rw [records]
      exact held.records

theorem run_kept (s : Setup τ) (asked : List (Moment τ × WebRequest))
    (written : ∀ e ∈ (s.run asked).translations, isWritten e.2 = true) : (s.run asked).Kept := by
  -- By induction from the last request, which meets the history that the others made.
  induction asked using List.reverseRecOn with
  | nil => exact kept_begin
  | append_singleton before last ih =>
    have step : s.run (before ++ [last]) = s.take (s.run before) last := by
      unfold Setup.run
      rw [List.foldl_append]
      rfl
    rw [step] at written ⊢
    refine (ih fun e member => written e ?_).take last written
    rw [translations_take]
    exact List.mem_append_left _ member

/-- After any requests to a service that began with an empty history and whose records were all written: the log shows
    each answered translation under the id that was told, its pages are those of the translations, the latest first,
    up to the largest offset that the history can be asked with, and what is refused or only scanned leaves no record. -/
theorem log_round_trip (s : Setup τ) (asked : List (Moment τ × WebRequest))
    (written : ∀ e ∈ (s.run asked).translations, isWritten e.2 = true) :
    (∀ e ∈ (s.run asked).translations, ∃ id shown, e.2.get? "record_id" = some (.int id) ∧ Recounts e.1 e.2 shown ∧
      ∀ m query body, (answer s m ⟨"GET", "/api/translate/log/".toList ++ Text.ofInt id, query, body⟩
        (s.run asked).archive).response = .ok shown) ∧
    (∀ query page, takeLogPage query = .ok page → ∀ m body,
      if History.isStorable page.offset then ∃ items,
        (answer s m ⟨"GET", "/api/translate/log", query, body⟩ (s.run asked).archive).response = .ok (.array items) ∧
        List.Forall₂ (fun e shown => Lists e.1 e.2 shown)
          (((s.run asked).translations.reverse.drop page.offset.toNat).take page.limit.toNat) items
      else (answer s m ⟨"GET", "/api/translate/log", query, body⟩ (s.run asked).archive).response.status = 500) ∧
    (∀ l o : Nat, 1 ≤ l ∧ l ≤ 200 → o < 10 ^ 19 →
      takeLogPage [("limit", Text.ofNat l), ("offset", Text.ofNat o)] = .ok ⟨l, o⟩) ∧
    ∀ m request a, (answer s m request a).response.status ∈ [400, 404, 422] ∨
        request.path ∈ [Endpoint.capabilityScan.path, Endpoint.credentialScan.path] →
      (answer s m request a).archive.history.records = a.history.records := by
  have held := run_kept s asked written
  generalize s.run asked = c at written held
  refine ⟨fun e member => ?_, fun query page taken m body => ?_, fun l o => take_log_page, fun m request a refused => ?_⟩
  · obtain ⟨r, shown, records⟩ := held.recorded member
    have storable : History.isStorable r.id = true := by
      obtain ⟨done, enriched, createdAt, -, answered, -⟩ := records
      have own := written e member
      rwa [answered] at own
    refine ⟨r.id, recordDetailBody r, ?_, records.recounts, fun m query body => ?_⟩
    · obtain ⟨done, enriched, createdAt, -, answered, -⟩ := records
      rw [answered]
      rfl
    · have positive : 0 ≤ r.id := Int.le_of_lt (held.order.2 r shown)
      have found := answer_get s m (of_path_record positive) rfl query body c.archive
      exact (congrArg Reply.response found).trans (respond_record held.readable held.order shown storable)
  · have found := answer_get s m log_path rfl query body c.archive
    have shown : (answer s m ⟨"GET", "/api/translate/log", query, body⟩ c.archive).response = respondLog query c.archive :=
      congrArg Reply.response found
    rw [shown, respond_log held.readable taken]
    split
    · refine ⟨_, rfl, ?_⟩
      have newest : List.Forall₂ Records c.translations.reverse c.archive.history.records.reverse :=
        List.rel_reverse held.records
      have slice := List.forall₂_take page.limit.toNat (List.forall₂_drop page.offset.toNat newest)
      refine List.forall₂_map_right_iff.2 (slice.imp fun e r records => ?_)
      have listed := records.lists []
      rwa [List.append_nil] at listed
    · rfl
  · rcases answer_cases s m request a with ⟨p, done, enriched, -, told, -⟩ | ⟨-, records, -⟩
    · obtain ⟨-, path, status⟩ := translation_here told
      rcases refused with failed | scanned
      · rw [status] at failed
        exact absurd failed (by decide)
      · rw [path] at scanned
        exact absurd scanned (by decide)
    · exact records

def freshSetup : Setup ℚ := { consultation := { apiKey := [], model := [], limit := 0, lifetime := 0 } }

def someMoment : Moment ℚ := { now := 0, stamp := [], createdAt := [], reply := fun _ => .timedOut }

-- A scan, a request that is refused and a translation.
def mixedRequests : List (Moment ℚ × WebRequest) :=
  [(someMoment, { method := "POST", path := "/api/plugins/scan", body := some "\x7b\"script\": \"sh 'make'\"\x7d" }),
    (someMoment, { method := "POST", path := "/api/translate", body := some "[]" }),
    (someMoment, { method := "POST", path := "/api/translate", body := some "\x7b\"script\": \"sh 'make'\"\x7d" })]

theorem mixed_requests_logged : (freshSetup.run mixedRequests).translations.map (isWritten ·.2) = [true] ∧
    ∃ e ∈ (freshSetup.run mixedRequests).translations, ∃ id shown, e.2.get? "record_id" = some (.int id) ∧
      Recounts e.1 e.2 shown ∧ ∀ m query body,
        (answer freshSetup m ⟨"GET", "/api/translate/log/".toList ++ Text.ofInt id, query, body⟩
          (freshSetup.run mixedRequests).archive).response = .ok shown := by
  have told : (freshSetup.run mixedRequests).translations.map (isWritten ·.2) = [true] := by decide +kernel
  have written : ∀ e ∈ (freshSetup.run mixedRequests).translations, isWritten e.2 = true := fun e member => by
    have among : isWritten e.2 ∈ (freshSetup.run mixedRequests).translations.map (isWritten ·.2) := List.mem_map_of_mem member
    rw [told] at among
    exact List.mem_singleton.1 among
  have kept := (log_round_trip freshSetup mixedRequests written).1
  refine ⟨told, ?_⟩
  generalize (freshSetup.run mixedRequests).translations = es at told kept ⊢
  cases es with
  | nil => cases told
  | cons e rest => exact ⟨e, List.mem_cons_self, kept e List.mem_cons_self⟩

theorem far_page_breaks : ∃ page, takeLogPage [("offset", "9223372036854775808")] = .ok page ∧
    (answer freshSetup someMoment ⟨"GET", "/api/translate/log", [("offset", "9223372036854775808")], none⟩
      {}).response.status = 500 := by
  have offset : Take.wholeWithin 0 none [.name "query", .name "offset"] (.string (Text.ofNat 9223372036854775808)) =
      .ok 9223372036854775808 := take_within (by decide) (by decide) (by simp) _
  have page : takeLogPage [("offset", "9223372036854775808")] = .ok ⟨20, 9223372036854775808⟩ := by
    change Checked.on (.ok (LogPage.mk 20)) (Take.wholeWithin 0 none [.name "query", .name "offset"]
      (.string (Text.ofNat 9223372036854775808))) = _
    rw [offset]
    rfl
  refine ⟨_, page, ?_⟩
  have found := answer_get freshSetup someMoment log_path rfl [("offset", "9223372036854775808")] none {}
  have shown : (answer freshSetup someMoment ⟨"GET", "/api/translate/log", [("offset", "9223372036854775808")], none⟩
      {}).response = respondLog [("offset", "9223372036854775808")] {} := congrArg Reply.response found
  rw [shown, respond_log rfl page]
  rfl

end Course

end PipelineMigration.Service
