import Mathlib.Algebra.Order.BigOperators.Group.List
import PipelineMigration.Capability.Readiness
import PipelineMigration.Proofs.Number.Rounding
set_option autoImplicit false

/- The score of some verdicts is the mean weight of their tiers, rounded half up. It goes with the mean, also between
   lists of different lengths, and the doubles that it may be computed in do not change it. -/
namespace PipelineMigration.Capability

section Sum

def weightSum (verdicts : List Verdict) : Nat := (verdicts.map (·.tier.weight)).sum

theorem weight_sum_append (first second : List Verdict) :
    weightSum (first ++ second) = weightSum first + weightSum second := by
  rw [weightSum, List.map_append, List.sum_append]
  rfl

theorem weight_sum_cons (v : Verdict) (rest : List Verdict) :
    weightSum (v :: rest) = v.tier.weight + weightSum rest := by
  rw [weightSum, List.map_cons, List.sum_cons]
  rfl

theorem weight_sum_foldr (verdicts : List Verdict) :
    verdicts.foldr (fun v total => v.tier.weight + total) 0 = weightSum verdicts := by
  rw [weightSum, List.sum_eq_foldr, List.foldr_map]

theorem weight_le (tier : SupportTier) : tier.weight ≤ 100 := by cases tier <;> decide

theorem weight_sum_le (verdicts : List Verdict) : weightSum verdicts ≤ verdicts.length * 100 := by
  have bound := List.sum_le_card_nsmul (verdicts.map (·.tier.weight)) 100
    (List.forall_mem_map.2 fun v _ => weight_le v.tier)
  rwa [List.length_map] at bound

-- The tier that comes first has the greater weight.
theorem weight_antitone {better tier : SupportTier} (before : better.priority ≤ tier.priority) :
    tier.weight ≤ better.weight := by
  have all : ∀ better ∈ SupportTier.all, ∀ tier ∈ SupportTier.all, better.priority ≤ tier.priority →
      tier.weight ≤ better.weight := by decide
  have known (tier : SupportTier) : tier ∈ SupportTier.all := by cases tier <;> decide
  exact all better (known better) tier (known tier) before

end Sum

section Mean

def meanWeight (verdicts : List Verdict) : ℚ := (weightSum verdicts : ℚ) / verdicts.length

variable {verdicts other : List Verdict}

theorem mean_le (filled : verdicts ≠ []) : meanWeight verdicts ≤ 100 := by
  have positive : (0 : ℚ) < verdicts.length := Nat.cast_pos.2 (List.length_pos_iff.2 filled)
  rw [meanWeight, div_le_iff₀ positive, mul_comm]
  exact_mod_cast weight_sum_le verdicts

theorem score_mean (filled : verdicts ≠ []) : (score verdicts : ℤ) = ⌊meanWeight verdicts + 1 / 2⌋ := by
  have positive : 0 < verdicts.length := List.length_pos_iff.2 filled
  have halves : meanWeight verdicts + 1 / 2 =
      ((2 * weightSum verdicts + verdicts.length : Nat) : ℚ) / (2 * verdicts.length : Nat) := by
    have some : (verdicts.length : ℚ) ≠ 0 := Nat.cast_ne_zero.2 positive.ne'
    rw [meanWeight]
    push_cast
    field_simp
  have bound : (2 * weightSum verdicts + verdicts.length) / (2 * verdicts.length) ≤ 100 := by
    have most := weight_sum_le verdicts
    refine Nat.le_of_lt_succ ((Nat.div_lt_iff_lt_mul (by omega)).2 ?_)
    omega
  unfold score
  rw [List.isEmpty_eq_false_iff.2 filled, if_neg Bool.false_ne_true, weight_sum_foldr]
  dsimp only
  rw [Nat.min_eq_right bound, halves, Rat.floor_natCast_div_natCast]
  exact Int.natCast_div _ _

-- Of two lists the one with the greater mean has no lower score.
theorem score_mono (filled : verdicts ≠ []) (filled' : other ≠ []) (less : meanWeight verdicts ≤ meanWeight other) :
    score verdicts ≤ score other := by
  have floors : (score verdicts : ℤ) ≤ score other := by
    rw [score_mean filled, score_mean filled']
    exact Int.floor_mono (by linarith)
  exact_mod_cast floors

theorem score_le (verdicts : List Verdict) : score verdicts ≤ 100 := by
  unfold score
  split
  · exact Nat.le_refl 100
  · exact Nat.min_le_left _ _

-- The doubles in which the score is computed round to it.
theorem score_in_doubles (filled : verdicts ≠ []) (few : 100 * verdicts.length < 2 ^ 43) :
    Number.truncate? (Number.nearest (100 * weightSum verdicts : Nat) (100 * verdicts.length) + 0.5) =
      some (score verdicts : ℤ) := by
  have positive : 0 < verdicts.length := List.length_pos_iff.2 filled
  have bound : 100 * weightSum verdicts < 128 * (100 * verdicts.length) := by
    have most := weight_sum_le verdicts
    omega
  have reduced : ((100 * weightSum verdicts : Nat) : ℚ) / (100 * verdicts.length : Nat) = meanWeight verdicts := by
    push_cast
    exact mul_div_mul_left _ _ (by norm_num)
  rw [Number.rounded_half_up bound few, reduced, score_mean filled]

end Mean

section Change

variable {verdicts : List Verdict}

theorem summarize_perm {other : List Verdict} (perm : verdicts.Perm other) : summarize other = summarize verdicts := by
  have counted (tier : SupportTier) : countTier tier other = countTier tier verdicts := (perm.countP_eq _).symm
  have sums : weightSum other = weightSum verdicts := ((perm.map _).sum_eq).symm
  have scored : score other = score verdicts := by
    simp only [score, weight_sum_foldr, sums, perm.length_eq, perm.isEmpty_eq]
  simp only [summarize, counted, scored, perm.length_eq]

theorem counts_total (verdicts : List Verdict) :
    countTier .native verdicts + countTier .templated verdicts + countTier .limited verdicts +
      countTier .unsupported verdicts = verdicts.length := by
  induction verdicts with
  | nil => rfl
  | cons v rest ih =>
    simp only [countTier, List.countP_cons, List.length_cons] at ih ⊢
    cases v.tier <;> simp <;> omega

theorem mean_replaced {before after : List Verdict} {v better : Verdict}
    (weight : v.tier.weight ≤ better.tier.weight) :
    meanWeight (before ++ v :: after) ≤ meanWeight (before ++ better :: after) := by
  have sums : weightSum (before ++ v :: after) ≤ weightSum (before ++ better :: after) := by
    rw [weight_sum_append, weight_sum_append, weight_sum_cons, weight_sum_cons]
    omega
  have lengths : (before ++ v :: after).length = (before ++ better :: after).length := by
    rw [List.length_append, List.length_append, List.length_cons, List.length_cons]
  rw [meanWeight, meanWeight, lengths]
  exact div_le_div_of_nonneg_right (Nat.cast_le.2 sums) (Nat.cast_nonneg _)

-- A mean moves towards the weight that is appended.
theorem mean_appended (filled : verdicts ≠ []) (v : Verdict) : meanWeight (verdicts ++ [v]) =
    meanWeight verdicts + (v.tier.weight - meanWeight verdicts) / (verdicts.length + 1) := by
  have some : (verdicts.length : ℚ) ≠ 0 := Nat.cast_ne_zero.2 (List.length_pos_iff.2 filled).ne'
  have next : (verdicts.length : ℚ) + 1 ≠ 0 := by positivity
  have single : weightSum [v] = v.tier.weight := weight_sum_cons v []
  rw [meanWeight, meanWeight, weight_sum_append, single, List.length_append, List.length_singleton]
  push_cast
  field_simp
  ring

end Change

/-- The score of some verdicts is the mean weight of their tiers, rounded half up, also where it is computed in doubles.
    It does not depend on their order; a better tier does not lower it, nor does one more verdict of the best, and one
    more of the worst does not raise it. -/
theorem score_weighted_mean {verdicts : List Verdict} (filled : verdicts ≠ []) :
    ((summarize verdicts).score : ℤ) = ⌊(weightSum verdicts : ℚ) / verdicts.length + 1 / 2⌋ ∧
      (summarize verdicts).score ≤ 100 ∧
      (∀ other, verdicts.Perm other → summarize other = summarize verdicts) ∧
      (∀ before v after, verdicts = before ++ v :: after →
        ∀ better : Verdict, better.tier.priority ≤ v.tier.priority →
          (summarize verdicts).score ≤ (summarize (before ++ better :: after)).score) ∧
      (∀ v, v.tier = .native → (summarize verdicts).score ≤ (summarize (verdicts ++ [v])).score) ∧
      (∀ v, v.tier = .unsupported → (summarize (verdicts ++ [v])).score ≤ (summarize verdicts).score) ∧
      (summarize verdicts).total = verdicts.length ∧
      (summarize verdicts).native + (summarize verdicts).templated + (summarize verdicts).limited +
        (summarize verdicts).unsupported = verdicts.length ∧
      (summarize []).score = 100 ∧
      (100 * verdicts.length < 2 ^ 43 →
        Number.truncate? (Number.nearest (100 * weightSum verdicts : Nat) (100 * verdicts.length) + 0.5) =
          some ((summarize verdicts).score : ℤ)) := by
  have more (v : Verdict) : verdicts ++ [v] ≠ [] := List.append_ne_nil_of_right_ne_nil _ (List.cons_ne_nil _ _)
  have count : (0 : ℚ) < verdicts.length + 1 := by positivity
  refine ⟨score_mean filled, score_le verdicts, fun other => summarize_perm, ?_, ?_, ?_, rfl, counts_total verdicts,
    rfl, score_in_doubles filled⟩
  · rintro before v after rfl better first
    exact score_mono filled (by simp) (mean_replaced (weight_antitone first))
  · intro v native
    refine score_mono filled (more v) ?_
    have rise : 0 ≤ ((v.tier.weight : ℚ) - meanWeight verdicts) / (verdicts.length + 1) := by
      have heavy : (v.tier.weight : ℚ) = 100 := by rw [native]; rfl
      exact div_nonneg (by linarith [mean_le filled]) count.le
    rw [mean_appended filled]
    linarith
  · intro v unsupported
    refine score_mono (more v) filled ?_
    have fall : ((v.tier.weight : ℚ) - meanWeight verdicts) / (verdicts.length + 1) ≤ 0 := by
      have light : (v.tier.weight : ℚ) = 0 := by rw [unsupported]; rfl
      have least : 0 ≤ meanWeight verdicts := by unfold meanWeight; positivity
      exact div_nonpos_of_nonpos_of_nonneg (by linarith) count.le
    rw [mean_appended filled]
    linarith

/-- One capability of full support, one of a template and one of none have a mean weight of 61 and two thirds. -/
theorem mixed_tiers_score : ∃ verdicts : List Verdict, verdicts ≠ [] ∧
    verdicts.map (·.tier) = [.native, .templated, .unsupported] ∧
    ((summarize verdicts).score : ℤ) = ⌊(185 : ℚ) / 3 + 1 / 2⌋ ∧ (summarize verdicts).score = 62 ∧
    (summarize verdicts.reverse).score = 62 ∧
    Number.truncate? (Number.nearest (18500 : Nat) 300 + 0.5) = some 62 := by
  obtain ⟨floor, -, order, -, -, -, -, -, -, doubles⟩ := @score_weighted_mean
    ([.native, .templated, .unsupported].map fun tier => { id := [], tier, note := [], hits := [], confidence := 0 })
    (List.cons_ne_nil _ _)
  have reversed := congrArg Readiness.score (order _ (List.reverse_perm _).symm)
  exact ⟨_, List.cons_ne_nil _ _, by decide, floor, by decide, reversed.trans (by decide), doubles (by decide)⟩

end PipelineMigration.Capability
