import Mathlib.Data.Finset.Max
import Mathlib.Data.List.Perm.Basic
import PipelineMigration.Migration
import PipelineMigration.Proofs.Capability.FirstUse
import PipelineMigration.Proofs.Outcome
set_option autoImplicit false

/- Uses are gathered into verdicts whatever order they come in. What a verdict says goes by the uses of its own
   capability, sorted by their places; and uses at one place have one line, so that ties do not change what is said. -/
namespace PipelineMigration.Capability

/-- What a verdict says, apart from the uses that it rests on, and the line that it points to. -/
def told (v : Verdict) : Verdict × Int := ({ v with hits := [] }, v.firstLine)

theorem best_percent_perm {hits others : List CapabilityHit} (perm : others.Perm hits) :
    bestPercent others = bestPercent hits := by
  apply perm.foldl_eq'
  intro h _ g _ best
  omega

section One

variable (t : Tables) (id : Text) {hits others : List CapabilityHit}

theorem first_line_perm (perm : others.Perm hits) :
    (verdictOf t id others).firstLine = (verdictOf t id hits).firstLine := by
  -- Two uses at one place may change places, but they are on one line.
  have places := ranked_places (·.line) (·.matchedText) perm
  have first (v : Verdict) : v.firstLine = ((v.hits.map fun h => (h.line, h.matchedText)).head?.map (·.1)).getD 0 := by
    simp [Verdict.firstLine, Function.comp_def]
  rw [first, first, verdict_hits, verdict_hits, hit_place_order_eq, places]

theorem told_perm (perm : others.Perm hits) : told (verdictOf t id others) = told (verdictOf t id hits) := by
  have sorted : (others.mergeSort hitPlaceOrder).Perm (hits.mergeSort hitPlaceOrder) :=
    (List.mergeSort_perm _ _).trans (perm.trans (List.mergeSort_perm _ _).symm)
  refine Prod.ext ?_ (first_line_perm t id perm)
  unfold told verdictOf
  dsimp only
  rw [best_percent_perm sorted]
  split <;> rfl

end One

variable (t : Tables) (hits : List CapabilityHit)

/-- The verdict on one capability, going by all the uses of it. -/
def gathered (id : Text) : Verdict := verdictOf t id (hits.filter fun h => t.canonical h.id == id)

theorem resolve_eq : resolve t hits =
    ((Keyed.distinct (hits.map fun h => t.canonical h.id)).map (gathered t hits)).mergeSort verdictOrder := by
  rw [resolve, Keyed.groups_eq, List.map_map]
  rfl

theorem told_resolve : (resolve t hits).map told =
    ((Keyed.distinct (hits.map fun h => t.canonical h.id)).map fun id => told (gathered t hits id)).mergeSort
      judgmentOrder := by
  have sorted (verdicts : List Verdict) :
      (verdicts.mergeSort verdictOrder).map told = (verdicts.map told).mergeSort judgmentOrder :=
    List.map_mergeSort fun _ _ _ _ => rfl
  rw [resolve_eq, sorted, List.map_map]
  rfl

theorem told_resolve_perm {others : List CapabilityHit} (perm : others.Perm hits) :
    (resolve t others).map told = (resolve t hits).map told := by
  have each : (fun id => told (gathered t others id)) = fun id => told (gathered t hits id) :=
    funext fun id => told_perm t id (perm.filter _)
  have ids : (Keyed.distinct (others.map fun h => t.canonical h.id)).Perm
      (Keyed.distinct (hits.map fun h => t.canonical h.id)) := by
    apply (List.perm_ext_iff_of_nodup (Keyed.nodup_distinct _) (Keyed.nodup_distinct _)).2
    intro id
    rw [Keyed.mem_distinct, Keyed.mem_distinct]
    exact (perm.map _).mem_iff
  rw [told_resolve, told_resolve, each, judgment_order_eq]
  apply ranked_unique
  · exact fun id => verdict_id t id _
  · exact ids

theorem resolve_increases : (resolve t hits).Pairwise fun v w => v.tier.priority < w.tier.priority ∨
    v.tier.priority = w.tier.priority ∧ Text.before v.id w.id = true := by
  have ordered : (resolve t hits).Pairwise fun v w => ranked (·.tier.priority) (·.id) v w = true :=
    List.pairwise_mergeSort ranked_trans ranked_total _
  have apart := List.pairwise_map.1 (resolve_ids_nodup t hits)
  refine ordered.imp₂ ?_ apart
  intro v w place other
  exact (ranked_iff.1 place).imp_right fun level => ⟨level.1, Text.before_of_not_after level.2 other⟩

theorem mem_resolve {v : Verdict} (judged : v ∈ resolve t hits) : ∃ id, v = gathered t hits id := by
  rw [resolve_eq, List.mem_mergeSort] at judged
  obtain ⟨id, -, rfl⟩ := List.mem_map.1 judged
  exact ⟨id, rfl⟩

theorem resolve_hits_sorted : ∀ v ∈ resolve t hits, v.hits.Pairwise fun a b => a.line < b.line ∨
    a.line = b.line ∧ Text.notAfter a.matchedText b.matchedText = true := by
  intro v judged
  obtain ⟨id, rfl⟩ := mem_resolve t hits judged
  have ordered (own : List CapabilityHit) : (own.mergeSort hitPlaceOrder).Pairwise fun a b =>
      ranked (·.line) (·.matchedText) a b = true := List.pairwise_mergeSort ranked_trans ranked_total own
  rw [gathered, verdict_hits]
  exact (ordered _).imp ranked_iff.1

theorem resolve_hits_own : ∀ v ∈ resolve t hits, ∀ h ∈ v.hits, t.canonical h.id = v.id := by
  intro v judged h used
  obtain ⟨id, rfl⟩ := mem_resolve t hits judged
  rw [gathered, verdict_hits, List.mem_mergeSort] at used
  rw [gathered, verdict_id]
  simpa using (List.mem_filter.1 used).2

theorem resolve_hits_all : ((resolve t hits).flatMap (·.hits)).Perm hits := by
  have own (group : Text × List CapabilityHit) : (verdictOf t group.1 group.2).hits.Perm group.2 := by
    rw [verdict_hits]
    exact List.mergeSort_perm _ _
  refine ((List.mergeSort_perm _ _).flatMap_right _).trans ?_
  rw [List.flatMap_map]
  exact (List.Perm.flatMap_left _ fun group _ => own group).trans (Keyed.groups_all _ hits)

/-- All uses are kept, each in the verdict on its capability and in the order of places; there is one verdict for each
    capability, in the order of tiers; and another order of uses gets the same said. -/
theorem resolve_gathers :
    (∀ others, others.Perm hits → (resolve t others).map told = (resolve t hits).map told) ∧
    ((resolve t hits).map (·.id)).Nodup ∧
    ((resolve t hits).Pairwise fun v w => v.tier.priority < w.tier.priority ∨
      v.tier.priority = w.tier.priority ∧ Text.before v.id w.id = true) ∧
    (∀ v ∈ resolve t hits, v.hits.Pairwise fun a b => a.line < b.line ∨
      a.line = b.line ∧ Text.notAfter a.matchedText b.matchedText = true) ∧
    ((resolve t hits).flatMap (·.hits)).Perm hits ∧
    ∀ v ∈ resolve t hits, ∀ h ∈ v.hits, t.canonical h.id = v.id :=
  ⟨fun _ perm => told_resolve_perm t hits perm, resolve_ids_nodup t hits, resolve_increases t hits,
    resolve_hits_sorted t hits, resolve_hits_all t hits, resolve_hits_own t hits⟩

-- One capability by two of its names, the later use first.
def imageUse : CapabilityHit := { id := "docker", line := 7, matchedText := "docker.build", confidence := .medium }
def agentUse : CapabilityHit := { id := "docker-workflow", line := 2, matchedText := "docker \x7b", confidence := .high }

theorem docker_uses_gathered : [imageUse, agentUse].Perm [agentUse, imageUse] ∧
    (resolve {} [imageUse, agentUse]).map told = (resolve {} [agentUse, imageUse]).map told ∧
    (resolve {} [imageUse, agentUse]).map (·.id) = ["docker-workflow".toList] := by
  have swapped : [imageUse, agentUse].Perm [agentUse, imageUse] := List.Perm.swap _ _ _
  refine ⟨swapped, (resolve_gathers {} [agentUse, imageUse]).1 _ swapped, ?_⟩
  decide +kernel

end PipelineMigration.Capability

/- How sure the verdicts of a migration are. A migration judges first uses only, so that a capability is trusted as far
   as its first use and its tier go. Stronger uses further down count for nothing, unless the tier would not trust them
   any further. -/
namespace PipelineMigration

namespace HitConfidence

/-- The confidence as a share of one. -/
def value : HitConfidence → Float
  | .high => 1.0
  | .medium => 0.75
  | .low => 0.4
  | .other _ => 0.4

-- A confidence by another name is worth what a low one is.
theorem known_worth (c : HitConfidence) : ∃ k ∈ known, k.value = c.value ∧ k.percent = c.percent := by
  cases c with
  | high => exact ⟨high, by decide, rfl, rfl⟩
  | medium => exact ⟨medium, by decide, rfl, rfl⟩
  | low => exact ⟨low, by decide, rfl, rfl⟩
  | other name => exact ⟨low, by decide, rfl, rfl⟩

theorem value_le_iff (c d : HitConfidence) : c.value ≤ d.value ↔ c.percent ≤ d.percent := by
  have each : ∀ c ∈ known, ∀ d ∈ known, c.value ≤ d.value ↔ c.percent ≤ d.percent := by decide
  obtain ⟨k, listed, worth, share⟩ := known_worth c
  obtain ⟨l, among, worth', share'⟩ := known_worth d
  rw [← worth, ← worth', ← share, ← share']
  exact each k listed l among

end HitConfidence

namespace Capability

section Trust

/-- How far a capability of a tier is trusted on a hit. -/
def trust (tier : SupportTier) (c : HitConfidence) : Float := min (Float.ofNat tier.weight / 100) c.value

-- Percents can be compared before they are divided.
theorem nearest_trust (tier : SupportTier) (c : HitConfidence) :
    Number.nearest (min (tier.weight : Int) c.percent) 100 = trust tier c := by
  have each : ∀ c ∈ HitConfidence.known, Number.nearest (min (tier.weight : Int) c.percent) 100 = trust tier c := by
    cases tier <;> decide
  obtain ⟨k, listed, worth, share⟩ := c.known_worth
  rw [trust, ← worth, ← share]
  exact each k listed

-- What a stronger hit adds: nothing when the tier allows no more, or when it is no stronger.
theorem trust_eq_iff (tier : SupportTier) {c d : HitConfidence} (weaker : c.value ≤ d.value) :
    trust tier c = trust tier d ↔ Float.ofNat tier.weight / 100 ≤ c.value ∨ d.value ≤ c.value := by
  have each : ∀ c ∈ HitConfidence.known, ∀ d ∈ HitConfidence.known, c.value ≤ d.value →
      (trust tier c = trust tier d ↔ Float.ofNat tier.weight / 100 ≤ c.value ∨ d.value ≤ c.value) := by
    cases tier <;> decide
  obtain ⟨k, listed, worth, -⟩ := c.known_worth
  obtain ⟨l, among, worth', -⟩ := d.known_worth
  rw [← worth, ← worth'] at weaker
  rw [trust, trust, ← worth, ← worth']
  exact each k listed l among weaker

end Trust

section Uses

/-- The uses of a capability in a script, from its top down. -/
def uses (script id : Text) : List CapabilityHit := (scanAll {} script).filter (·.id == id)

-- Of uses one is the strongest.
theorem strongest_use {hits : List CapabilityHit} (used : hits ≠ []) :
    ∃ best ∈ hits, ∀ h ∈ hits, h.confidence.value ≤ best.confidence.value := by
  have filled : hits.toFinset.Nonempty := List.toFinset_nonempty_iff hits |>.2 used
  obtain ⟨best, member, most⟩ := hits.toFinset.exists_max_image (·.confidence.percent) filled
  refine ⟨best, List.mem_toFinset.1 member, fun h among => ?_⟩
  exact (HitConfidence.value_le_iff _ _).2 (most h (List.mem_toFinset.2 among))

theorem verdict_confidence (t : Tables) {id : Text} {e : CompatibilityEntry}
    (known : Keyed.get? id t.catalog = some e) (hits : List CapabilityHit) : (verdictOf t id hits).tier = e.tier ∧
      (verdictOf t id hits).confidence = Number.nearest (min (e.tier.weight : Int) (bestPercent hits)) 100 := by
  rw [verdictOf, known]
  refine ⟨rfl, ?_⟩
  dsimp only
  rw [best_percent_perm (List.mergeSort_perm hits hitPlaceOrder)]

variable (script : Text)

-- What is judged of a capability in a scan is its first use alone.
theorem resolve_scan_first {v : Verdict} (judged : v ∈ resolve {} (scan {} script)) :
    ∃ first rest, uses script v.id = first :: rest ∧ v = verdictOf {} v.id [first] := by
  rw [resolve, groups_settled (scan_settled script), List.map_map, List.mem_mergeSort] at judged
  obtain ⟨id, listed, rfl⟩ := List.mem_map.1 judged
  obtain ⟨h, member, rfl⟩ := List.mem_map.1 (Keyed.mem_distinct.1 listed)
  have alone := filter_own (scan_ids_nodup {} script) member
  have found : (scan {} script).find? (·.id == h.id) = some h := by
    rw [← List.head?_filter, alone, List.head?_cons]
  have first : (uses script h.id).head? = some h := by
    rw [uses, List.head?_filter, ← find_scan, found]
  obtain ⟨rest, whole⟩ := List.head?_eq_some_iff.1 first
  refine ⟨h, rest, ?_, ?_⟩
  · rw [Function.comp_apply, verdict_id, whole]
  · rw [Function.comp_apply, verdict_id, alone]

end Uses

section Translate

variable {script stamp : Text} {options : PlanOptions} {m : Migration}
  (made : Migration.translate {} script options stamp = .ok m)

include made

theorem translate_judges : m.verdicts = resolve {} (scan {} script) := by
  obtain ⟨-, -, made⟩ := Outcome.bind_ok made
  obtain ⟨e, -, made⟩ := Outcome.bind_ok made
  obtain ⟨configuration, -, made⟩ := Outcome.bind_ok made
  obtain ⟨lint, -, made⟩ := Outcome.bind_ok made
  rw [← Except.ok.inj made]

/-- A known capability is trusted as far as its tier and its first use go, which is as far as its strongest use goes
    just when the tier allows no more than the first use does or no use is stronger than the first. -/
theorem translate_trusts_first {v : Verdict} (judged : v ∈ m.verdicts) {e : CompatibilityEntry}
    (known : Keyed.get? v.id catalog = some e) :
    ∃ first rest, uses script v.id = first :: rest ∧ v.tier = e.tier ∧ v.confidence = trust e.tier first.confidence ∧
      ∃ best ∈ uses script v.id, (∀ h ∈ uses script v.id, h.confidence.value ≤ best.confidence.value) ∧
        (v.confidence = trust e.tier best.confidence ↔
          Float.ofNat e.tier.weight / 100 ≤ first.confidence.value ∨
            best.confidence.value ≤ first.confidence.value) := by
  rw [translate_judges made] at judged
  obtain ⟨first, rest, used, whole⟩ := resolve_scan_first script judged
  have ⟨tier, sure⟩ := verdict_confidence {} known [first]
  have confidence : v.confidence = trust e.tier first.confidence := by
    have one : bestPercent [first] = first.confidence.percent := Nat.zero_max _
    rw [whole, sure, one, nearest_trust]
  have filled : uses script v.id ≠ [] := used ▸ List.cons_ne_nil first rest
  obtain ⟨best, member, most⟩ := strongest_use filled
  have weaker := most first (used ▸ List.mem_cons_self)
  refine ⟨first, rest, used, ?_, confidence, best, member, most, ?_⟩
  · rw [whole, tier]
  · rw [confidence]
    exact trust_eq_iff e.tier weaker

end Translate

-- A weak use of a capability before a strong one, where its tier would allow more.
def clusterScript : Text := "kubectl(\nwithKubeConfig("

theorem cluster_judged : (Migration.translate {} clusterScript {} []).toOption.isSome = true ∧
    ∃ v ∈ resolve {} (scan {} clusterScript), (Keyed.get? v.id catalog).isSome ∧
      ∃ best ∈ uses clusterScript v.id, (∀ h ∈ uses clusterScript v.id, h.confidence.value ≤ best.confidence.value) ∧
        v.confidence < trust v.tier best.confidence := by decide +kernel

theorem cluster_trusted_first : ∃ m, Migration.translate {} clusterScript {} [] = .ok m ∧ ∃ v ∈ m.verdicts, ∃ e,
    Keyed.get? v.id catalog = some e ∧ ∃ first rest, uses clusterScript v.id = first :: rest ∧
      v.tier = e.tier ∧ v.confidence = trust e.tier first.confidence := by
  obtain ⟨done, v, judged, listed, -⟩ := cluster_judged
  obtain ⟨m, made⟩ := Outcome.done_of_isSome done
  obtain ⟨e, known⟩ := Option.isSome_iff_exists.1 listed
  rw [← translate_judges made] at judged
  obtain ⟨first, rest, used, tier, sure, -⟩ := translate_trusts_first made judged known
  exact ⟨m, made, v, judged, e, known, first, rest, used, tier, sure⟩

/-- The strongest use of the cluster would be trusted further than the first one is. -/
theorem cluster_doubted : ∃ m, Migration.translate {} clusterScript {} [] = .ok m ∧ ∃ v ∈ m.verdicts,
    (Keyed.get? v.id catalog).isSome ∧ ∃ best ∈ uses clusterScript v.id,
      (∀ h ∈ uses clusterScript v.id, h.confidence.value ≤ best.confidence.value) ∧
      v.confidence < trust v.tier best.confidence := by
  obtain ⟨done, judged⟩ := cluster_judged
  obtain ⟨m, made⟩ := Outcome.done_of_isSome done
  rw [← translate_judges made] at judged
  exact ⟨m, made, judged⟩

end Capability
end PipelineMigration
