import Mathlib.Data.List.Sort
import PipelineMigration.Capability.Readiness
import PipelineMigration.Proofs.Capability.Note
import PipelineMigration.Proofs.Capability.Said
import PipelineMigration.Proofs.Keyed
import PipelineMigration.Proofs.Text.Trim
set_option autoImplicit false

/- The first uses of capabilities are judged as all their uses are. A name that a scan has settled is not changed by
   being settled again, so that uses are grouped by their own ids; and the first use of each capability is on the line
   that the verdict on all of them points to. -/
namespace PipelineMigration.Capability

section Names

theorem trim_named {name : Text} (named : HasNameChars name) : Text.trim name = name := by
  have visible : ∀ c ∈ name, Text.isBlank c = false := fun c member => by
    have held := name_each (p := fun c => !Text.isBlank c) (by decide +kernel) (named c member)
    simpa using held
  exact Text.trim_by_none visible

theorem canonical_named {name : Text} (named : HasNameChars name) : ({} : Tables).canonical name =
    (Keyed.get? (name.map Char.toLower) aliases).getD (name.map Char.toLower) := by
  unfold Tables.canonical
  rw [trim_named named, lower_ascii fun c member => name_ascii (named c member)]

-- What a name stands for stands for itself.
theorem aliases_settled : ∀ a ∈ aliases, ({} : Tables).canonical a.2 = a.2 := by decide +kernel

theorem canonical_settled {name : Text} (named : HasNameChars name) :
    ({} : Tables).canonical (({} : Tables).canonical name) = ({} : Tables).canonical name := by
  have small : HasNameChars (name.map Char.toLower) := List.forall_mem_map.2 fun c member =>
    name_each (p := fun c => isNameChar c.toLower) (by decide +kernel) (named c member)
  have settled : (name.map Char.toLower).map Char.toLower = name.map Char.toLower := by
    rw [List.map_map]
    refine List.map_congr_left fun c member => ?_
    have held := name_each (p := fun c => c.toLower.toLower == c.toLower) (by decide +kernel) (named c member)
    exact beq_iff_eq.1 held
  rw [canonical_named named]
  cases found : Keyed.get? (name.map Char.toLower) aliases with
  | none => rw [Option.getD_none, canonical_named small, settled, found, Option.getD_none]
  | some other => exact aliases_settled _ (Keyed.mem_of_get? found)

end Names

section Orders

variable {α β : Type} [LinearOrder β] (rank : α → β) (name : α → Text)

/-- By rank, then by name. -/
def ranked (a b : α) : Bool := rank a < rank b || (rank a == rank b && Text.notAfter (name a) (name b))

variable {rank name}

theorem ranked_iff {a b : α} : ranked rank name a b = true ↔
    rank a < rank b ∨ rank a = rank b ∧ Text.notAfter (name a) (name b) = true := by
  simp [ranked]

theorem ranked_trans (a b c : α) (ab : ranked rank name a b = true) (bc : ranked rank name b c = true) :
    ranked rank name a c = true := by
  rw [ranked_iff] at ab bc ⊢
  rcases ab with lower | ⟨same, named⟩
  · rcases bc with further | ⟨level, -⟩
    · exact .inl (lower.trans further)
    · exact .inl (level ▸ lower)
  · rcases bc with further | ⟨level, later⟩
    · exact .inl (same ▸ further)
    · exact .inr ⟨same.trans level, Text.notAfter_trans named later⟩

theorem ranked_total (a b : α) : (ranked rank name a b || ranked rank name b a) = true := by
  rw [Bool.or_eq_true, ranked_iff, ranked_iff]
  rcases lt_trichotomy (rank a) (rank b) with lower | same | higher
  · exact .inl (.inl lower)
  · rcases Bool.or_eq_true_iff.1 (Text.notAfter_total (name a) (name b)) with before | after
    · exact .inl (.inr ⟨same, before⟩)
    · exact .inr (.inr ⟨same.symm, after⟩)
  · exact .inr (.inl higher)

theorem ranked_le {a b : α} (ordered : ranked rank name a b = true) : rank a ≤ rank b := by
  rcases ranked_iff.1 ordered with lower | ⟨same, -⟩
  · exact lower.le
  · exact same.le

theorem name_eq_of_ranked {a b : α} (forth : ranked rank name a b = true) (back : ranked rank name b a = true) :
    name a = name b := by
  have same : rank a = rank b := le_antisymm (ranked_le forth) (ranked_le back)
  have before := (ranked_iff.1 forth).resolve_left same.not_lt
  have after := (ranked_iff.1 back).resolve_left same.symm.not_lt
  simp only [Text.notAfter, Bool.not_eq_true'] at before after
  exact Text.eq_of_not_before after.2 before.2

variable (rank name) in
-- Values sorted by rank and name agree in both, whatever order they came in.
theorem ranked_places {values others : List α} (perm : others.Perm values) :
    (others.mergeSort (ranked rank name)).map (fun v => (rank v, name v)) =
      (values.mergeSort (ranked rank name)).map fun v => (rank v, name v) := by
  have sorted (values : List α) : ((values.mergeSort (ranked rank name)).map fun v => (rank v, name v)).Pairwise fun a b =>
      ranked Prod.fst Prod.snd a b = true := List.pairwise_map.2 (List.pairwise_mergeSort ranked_trans ranked_total values)
  have same : (others.mergeSort (ranked rank name)).Perm (values.mergeSort (ranked rank name)) :=
    (List.mergeSort_perm _ _).trans (perm.trans (List.mergeSort_perm _ _).symm)
  refine List.Perm.eq_of_pairwise ?_ (sorted others) (sorted values) (same.map _)
  intro a b _ _ forth back
  exact Prod.ext (le_antisymm (ranked_le forth) (ranked_le back)) (name_eq_of_ranked forth back)

variable (rank name) in
-- Values told by their names come in one order.
theorem ranked_unique {f : Text → α} (own : ∀ id, name (f id) = id) {ids others : List Text} (perm : ids.Perm others) :
    (ids.map f).mergeSort (ranked rank name) = (others.map f).mergeSort (ranked rank name) := by
  have sorted (values : List α) : (values.mergeSort (ranked rank name)).Pairwise fun a b => ranked rank name a b = true :=
    List.pairwise_mergeSort ranked_trans ranked_total values
  refine List.Perm.eq_of_pairwise ?_ (sorted _) (sorted _)
    ((List.mergeSort_perm _ _).trans ((perm.map _).trans (List.mergeSort_perm _ _).symm))
  intro a b first second forth back
  obtain ⟨id, -, rfl⟩ := List.mem_map.1 (List.mem_mergeSort.1 first)
  obtain ⟨other, -, rfl⟩ := List.mem_map.1 (List.mem_mergeSort.1 second)
  have same : id = other := (own id).symm.trans ((name_eq_of_ranked forth back).trans (own other))
  rw [same]

theorem hit_place_order_eq : hitPlaceOrder = ranked (·.line) (·.matchedText) := rfl

end Orders

section Uses

/-- Uses from the top of a script down. -/
def Descends (hits : List CapabilityHit) : Prop := hits.Pairwise fun a b => a.line ≤ b.line

theorem scan_all_descends (t : Tables) (script : Text) : Descends (scanAll t script) := by
  have placed {line : Text} {i : Nat} {h : CapabilityHit}
      (member : h ∈ if isIdle line then [] else t.hitsInLine line (i + 1)) : h.line = i + 1 := by
    split at member
    · cases member
    · obtain ⟨s, -, made⟩ := List.mem_flatMap.1 member
      obtain ⟨m, -, made⟩ := List.mem_filterMap.1 made
      unfold Tables.hitOf? at made
      dsimp only at made
      split at made
      · rw [← Option.some.inj made]
        rfl
      · split at made
        · rw [← Option.some.inj made]
          rfl
        · cases made
  refine List.pairwise_flatMap.2 ⟨fun entry _ => ?_, ?_⟩
  · exact List.pairwise_of_forall_mem_list fun a first b second => ((placed first).trans (placed second).symm).le
  · have numbered : (Text.lines script).zipIdx.Pairwise fun a b => a.2 < b.2 := by
      refine List.pairwise_map.1 ?_
      rw [List.zipIdx_map_snd]
      exact List.pairwise_lt_range'
    refine numbered.imp fun {a b} before h first g second => ?_
    rw [placed first, placed second]
    omega

theorem scan_descends (t : Tables) (script : Text) : Descends (scan t script) := by
  have ordered : (scan t script).Pairwise fun a b => hitOrder a b = true :=
    List.pairwise_mergeSort ranked_trans ranked_total _
  exact ordered.imp ranked_le

theorem scan_ids (t : Tables) (script : Text) :
    ((scan t script).map (·.id)).Perm (Keyed.distinct ((scanAll t script).map (·.id))) :=
  Keyed.sorted_firsts_keys CapabilityHit.id _ _

theorem scan_ids_nodup (t : Tables) (script : Text) : ((scan t script).map (·.id)).Nodup :=
  Keyed.sorted_firsts_nodup CapabilityHit.id _ _

-- The use of a capability that a scan keeps is the first of all its uses.
theorem find_scan (t : Tables) (script : Text) (id : Text) :
    (scan t script).find? (·.id == id) = (scanAll t script).find? (·.id == id) :=
  Keyed.find_sorted_firsts CapabilityHit.id _ _ id

end Uses

section Judgments

/-- What a verdict says, apart from the uses that it rests on and how sure they make it, and the line that it
    points to. -/
def judgment (v : Verdict) : Verdict × Int := ({ v with hits := [], confidence := 0 }, v.firstLine)

/-- What is said of a capability that is first used on a line. -/
def judge (t : Tables) (id : Text) (line : Int) : Verdict × Int := ((judgment (verdictOf t id [])).1, line)

theorem verdict_hits (t : Tables) (id : Text) (hits : List CapabilityHit) :
    (verdictOf t id hits).hits = hits.mergeSort hitPlaceOrder := by
  unfold verdictOf
  dsimp only
  split <;> rfl

theorem first_line_eq (t : Tables) (id : Text) {hits : List CapabilityHit} (descends : Descends hits) :
    (verdictOf t id hits).firstLine = (hits.head?.map (·.line)).getD 0 := by
  have perm := List.mergeSort_perm hits hitPlaceOrder
  have ordered : (hits.mergeSort hitPlaceOrder).Pairwise fun a b => hitPlaceOrder a b = true :=
    List.pairwise_mergeSort ranked_trans ranked_total hits
  unfold Verdict.firstLine
  rw [verdict_hits]
  generalize hits.mergeSort hitPlaceOrder = sorted at perm ordered
  cases hits with
  | nil => rw [List.perm_nil.1 perm]
  | cons h rest =>
    cases sorted with
    | nil => cases List.nil_perm.1 perm
    | cons g others =>
      have above : h.line ≤ g.line := by
        rcases List.mem_cons.1 (perm.mem_iff.1 List.mem_cons_self) with rfl | later
        · exact le_rfl
        · exact List.rel_of_pairwise_cons descends later
      have below : g.line ≤ h.line := by
        rcases List.mem_cons.1 (perm.mem_iff.2 List.mem_cons_self) with rfl | later
        · exact le_rfl
        · exact ranked_le (List.rel_of_pairwise_cons ordered later)
      exact le_antisymm below above

theorem verdict_judgment (t : Tables) (id : Text) {hits : List CapabilityHit} (descends : Descends hits) :
    judgment (verdictOf t id hits) = judge t id ((hits.head?.map (·.line)).getD 0) := by
  refine Prod.ext ?_ (first_line_eq t id descends)
  unfold judge judgment verdictOf
  dsimp only
  split <;> rfl

/-- Hits of the default tables whose ids are settled, from the top of a script down. -/
structure Settled (hits : List CapabilityHit) : Prop where
  descends : Descends hits
  ids : ∀ h ∈ hits, ({} : Tables).canonical h.id = h.id

theorem scan_all_settled (script : Text) : Settled (scanAll {} script) where
  descends := scan_all_descends {} script
  ids h member := by
    obtain ⟨name, named, canonical⟩ := scan_all_named member
    rw [canonical]
    exact canonical_settled named

theorem scan_settled (script : Text) : Settled (scan {} script) where
  descends := scan_descends {} script
  ids h member := (scan_all_settled script).ids h (scan_sub member)

variable {hits : List CapabilityHit}

theorem groups_settled (settled : Settled hits) : Keyed.groups (fun h => ({} : Tables).canonical h.id) hits =
    (Keyed.distinct (hits.map (·.id))).map fun id => (id, hits.filter (·.id == id)) := by
  have ids : hits.map (fun h => ({} : Tables).canonical h.id) = hits.map (·.id) := List.map_congr_left settled.ids
  have own (id : Text) : hits.filter (fun h => ({} : Tables).canonical h.id == id) = hits.filter (·.id == id) :=
    List.filter_congr fun h member => by rw [settled.ids h member]
  rw [Keyed.groups_eq, ids]
  simp only [own]

/-- What is said of the capability of an id, going by its first use. -/
def judgeFirst (hits : List CapabilityHit) (id : Text) : Verdict × Int :=
  judge {} id (((hits.find? (·.id == id)).map (·.line)).getD 0)

def judgmentOrder (a b : Verdict × Int) : Bool := verdictOrder a.1 b.1

theorem judgment_order_eq : judgmentOrder = ranked (·.1.tier.priority) (·.1.id) := rfl

theorem resolve_judgments (settled : Settled hits) : (resolve {} hits).map judgment =
    ((Keyed.distinct (hits.map (·.id))).map (judgeFirst hits)).mergeSort judgmentOrder := by
  have judged (id : Text) : judgment (verdictOf {} id (hits.filter (·.id == id))) = judgeFirst hits id := by
    rw [verdict_judgment {} id (settled.descends.filter _), List.head?_filter]
    rfl
  have sorted (verdicts : List Verdict) :
      (verdicts.mergeSort verdictOrder).map judgment = (verdicts.map judgment).mergeSort judgmentOrder :=
    List.map_mergeSort fun _ _ _ _ => rfl
  unfold resolve
  rw [groups_settled settled, List.map_map, sorted, List.map_map]
  exact congrArg (List.mergeSort · judgmentOrder) (List.map_congr_left fun id _ => judged id)

theorem judge_first_id (id : Text) : (judgeFirst hits id).1.id = id := verdict_id {} id []

-- The same judgments come in one order, since their ids tell them apart.
theorem sorted_unique {ids others : List Text} (perm : ids.Perm others) :
    (ids.map (judgeFirst hits)).mergeSort judgmentOrder = (others.map (judgeFirst hits)).mergeSort judgmentOrder := by
  rw [judgment_order_eq]
  apply ranked_unique
  · exact judge_first_id
  · exact perm

theorem filter_own (apart : (hits.map (·.id)).Nodup) {h : CapabilityHit} (member : h ∈ hits) :
    hits.filter (·.id == h.id) = [h] := by
  have own : hits.filter (·.id == h.id) = hits.filter (· == h) := List.filter_congr fun other among => by
    rw [Bool.eq_iff_iff, beq_iff_eq, beq_iff_eq]
    exact ⟨List.inj_on_of_nodup_map apart among member, congrArg CapabilityHit.id⟩
  rw [own, List.filter_beq, List.count_eq_one_of_mem apart.of_map member, List.replicate_one]

theorem resolve_apart (settled : Settled hits) (apart : (hits.map (·.id)).Nodup) :
    ((resolve {} hits).map fun v => (v.id, v.hits)).Perm (hits.map fun h => (h.id, [h])) := by
  have each : ∀ h ∈ hits, ((verdictOf {} h.id (hits.filter (·.id == h.id))).id,
      (verdictOf {} h.id (hits.filter (·.id == h.id))).hits) = (h.id, [h]) := fun h member => by
    rw [verdict_id, verdict_hits, filter_own apart member, List.mergeSort_singleton]
  unfold resolve
  rw [groups_settled settled, Keyed.distinct_of_nodup apart]
  refine ((List.mergeSort_perm _ _).map _).trans (.of_eq ?_)
  rw [List.map_map, List.map_map, List.map_map]
  exact List.map_congr_left each

end Judgments

/-- First uses and all uses get the same judgments in the same order, so that they count the same; and each first use
    gets a verdict of its own. -/
theorem resolve_scan (script : Text) :
    (resolve {} (scan {} script)).map judgment = (resolve {} (scanAll {} script)).map judgment ∧
      summarize (resolve {} (scan {} script)) = summarize (resolve {} (scanAll {} script)) ∧
      (∀ style, ComplexityTier.of (resolve {} (scan {} script)) style =
        ComplexityTier.of (resolve {} (scanAll {} script)) style) ∧
      ((resolve {} (scan {} script)).map fun v => (v.id, v.hits)).Perm ((scan {} script).map fun h => (h.id, [h])) := by
  have judgments : (resolve {} (scan {} script)).map judgment = (resolve {} (scanAll {} script)).map judgment := by
    have first : judgeFirst (scan {} script) = judgeFirst (scanAll {} script) := by
      funext id
      rw [judgeFirst, find_scan, judgeFirst]
    rw [resolve_judgments (scan_settled script), resolve_judgments (scan_all_settled script), first,
      Keyed.distinct_of_nodup (scan_ids_nodup {} script)]
    exact sorted_unique (scan_ids {} script)
  have counted (hits : List CapabilityHit) :
      summarize (((resolve {} hits).map judgment).map (·.1)) = summarize (resolve {} hits) := by
    rw [List.map_map]
    exact summarize_map _ fun _ => rfl
  have length : (resolve {} (scan {} script)).length = (resolve {} (scanAll {} script)).length := by
    simpa using congrArg List.length judgments
  refine ⟨judgments, ?_, fun style => ?_, ?_⟩
  · rw [← counted, judgments, counted]
  · rw [ComplexityTier.of, ComplexityTier.of, length]
  · exact resolve_apart (scan_settled script) (scan_ids_nodup {} script)

end PipelineMigration.Capability
