import PipelineMigration.Proofs.Configuration.Shown
import PipelineMigration.Proofs.Job.Placement
set_option autoImplicit false

/- What becomes of conditions. A condition on a stage that deploys is a rule of the deploy job or a
   comment on it, any other is a comment in the advisories. A pipeline of the simple tier has no deploy
   job: there the conditions on stages that deploy have no part in the configuration. -/
namespace PipelineMigration

theorem Job.rules_in_layout (j : Job) (r : JobRule) (member : r ∈ j.rules) : Job.ruleLines r <:+: Job.layout j := by
  have listed : occasionLines j = "  rules:".toList :: j.rules.flatMap ruleLines := by
    rw [occasionLines, List.isEmpty_eq_false_iff.2 (List.ne_nil_of_mem member)]
    rfl
  have inside : occasionLines j <:+: layout j :=
    ((List.suffix_append _ _).isInfix).trans (List.prefix_append _ _).isInfix
  obtain ⟨front, back, split⟩ := List.append_of_mem member
  refine List.IsInfix.trans ?_ inside
  rw [listed, split, List.flatMap_append, List.flatMap_cons]
  exact ⟨"  rules:".toList :: front.flatMap ruleLines, back.flatMap ruleLines, by simp⟩

namespace Configuration

/-- The comment on a condition that has no rule at the deploy job. -/
def untranslatedLine (g : Guard) : Text :=
  "# [REVIEW] Jenkins expression guard not translated: ".toList ++ g.expression

/-- The comment on the condition of a stage that does not deploy. -/
def conditionLine (g : Guard) : Text :=
  "# [REVIEW] Condition on stage '".toList ++ (if g.stage.isEmpty then "unknown".toList else g.stage) ++ "' (".toList ++
    Text.trim (g.condition.name ++ ' ' :: g.expression) ++ ") needs rules: on the matching job.".toList

/-- The trace of a condition in a text: its rule, one of the deploy job's, or a comment that tells
    its expression or the condition as a whole. -/
inductive Traced (c : JobContext) (text : Text) (g : Guard) : Prop where
  | rule (r : JobRule) (translated : Job.guardRule g = some r.condition) (member : r ∈ (Job.deployJob c).rules)
      (shown : Shows text (Job.layout (Job.deployJob c)))
      (inside : Job.ruleLines r <:+: Job.layout (Job.deployJob c))
  | untranslated (shown : Shows text [untranslatedLine g])
  | condition (shown : Shows text [conditionLine g])

theorem condition_comment (g : Guard) : commentLine (guardRemark g) = conditionLine g := by
  unfold conditionLine
  generalize told : Text.trim (g.condition.name ++ ' ' :: g.expression) = condition
  generalize named : (if g.stage.isEmpty then "unknown".toList else g.stage) = stage
  have remark : guardRemark g = Job.review ("Condition on stage '".toList ++ stage ++ "' (".toList ++ condition ++
      ") needs rules: on the matching job.".toList) := by
    rw [← told, ← named]
    rfl
  rw [remark]
  simp only [List.append_assoc]
  rfl

section Traces

variable (policy : ReviewPolicy) (c : JobContext) (specs : List VariableSpec) (tier : ComplexityTier)
  (limits : Limits) (stamp : Text) {g : Guard} (member : g ∈ c.features.guards)

include member

theorem advisory_traced (other : Job.isDeployStage g.stage = false) :
    Traced c (document (blocks policy c specs tier limits stamp)) g := by
  have line : conditionLine g ∈ advisories c.features c.verdicts policy.threshold
      ((Job.capabilityJobs c policy.threshold).map (·.1)) := by
    rw [← condition_comment]
    exact List.mem_append_right _ (List.mem_map_of_mem (List.mem_filter.2 ⟨member, by rw [other]; rfl⟩))
  exact .condition ((section_shown c limits _ (List.mem_of_getElem? (i := 6) rfl) (List.ne_nil_of_mem line)).line line)

theorem deploy_traced (staged : c.hasStage "deploy" = true) (deploys : Job.isDeployStage g.stage = true) :
    Traced c (document (blocks policy c specs tier limits stamp)) g := by
  have guarded : g ∈ Job.deployGuards c := List.mem_filter.2 ⟨member, deploys⟩
  have core : Job.deployJob c ∈ Job.coreJobs c := by
    unfold Job.coreJobs
    rw [if_pos staged]
    simp
  have shown : Shows (document (blocks policy c specs tier limits stamp)) (Job.layout (Job.deployJob c)) :=
    job_shown c limits _ (List.mem_append_left _ core)
  cases rule : Job.guardRule g with
  | some condition =>
    have translated : (⟨condition, Job.manual? c⟩ : JobRule) ∈ (Job.deployGuards c).filterMap fun g =>
        (Job.guardRule g).map fun r => ⟨r, Job.manual? c⟩ :=
      List.mem_filterMap.2 ⟨g, guarded, by rw [rule]; rfl⟩
    have own : (⟨condition, Job.manual? c⟩ : JobRule) ∈ (Job.deployJob c).rules := by
      -- Rules from conditions take the place of those that stand when there are none.
      change _ ∈ Job.deployRules c
      unfold Job.deployRules
      dsimp only
      rw [List.isEmpty_eq_false_iff.2 (List.ne_nil_of_mem translated)]
      exact translated
    exact .rule _ rule own shown (Job.rules_in_layout _ _ own)
  | none =>
    have comment : untranslatedLine g ∈ Job.layout (Job.deployJob c) := by
      obtain ⟨body, whole⟩ := Job.layout_begins (Job.deployJob c)
      rw [whole]
      refine List.mem_append_left _ (List.mem_map.2 ⟨_, List.mem_map_of_mem (List.mem_filter.2 ⟨guarded, ?_⟩), ?_⟩)
      · rw [rule]
        rfl
      · rfl
    exact .untranslated (shown.line comment)

end Traces

section Dropped

/-- The features without the conditions on stages that deploy. -/
def withoutDeployGuards (f : FeatureSet) : FeatureSet :=
  { f with guards := f.guards.filter fun g => !Job.isDeployStage g.stage }

theorem deploy_staged_iff (features : FeatureSet) (verdicts : List Verdict) (tier : ComplexityTier)
    (expiry : Option Text) :
    (JobContext.of features verdicts tier expiry).hasStage "deploy" = true ↔ tier ≠ .simple := by
  have stages : (JobContext.of features verdicts tier expiry).hasStage "deploy" =
      (Job.selectStages tier verdicts).contains "deploy".toList := rfl
  rw [stages, Job.selectStages]
  cases verdicts.any fun v => v.id == "docker-workflow".toList <;> cases tier <;>
    simp [Job.baseStages]

theorem unguarded_alike (features : FeatureSet) (verdicts : List Verdict) (expiry : Option Text) :
    Job.Alike (JobContext.of (withoutDeployGuards features) verdicts .simple expiry)
      (JobContext.of features verdicts .simple expiry) := by
  have unstaged (f : FeatureSet) : ¬ (JobContext.of f verdicts .simple expiry).hasStage "deploy" = true :=
    fun staged => (deploy_staged_iff f verdicts .simple expiry).1 staged rfl
  refine ⟨rfl, rfl, ?_, List.forall₂_same.2 fun _ _ => rfl⟩
  unfold Job.coreJobs
  rw [if_neg (unstaged _), if_neg (unstaged _)]
  rfl

theorem advisories_unguarded (f : FeatureSet) (verdicts : List Verdict) (threshold : Float) (inJobs : List Text) :
    advisories (withoutDeployGuards f) verdicts threshold inJobs = advisories f verdicts threshold inJobs := by
  unfold advisories withoutDeployGuards
  dsimp only
  rw [List.filter_filter]
  simp only [Bool.and_self]

theorem synthesize_unguarded (policy : ReviewPolicy) (features : FeatureSet) (verdicts : List Verdict)
    (specs : List VariableSpec) (stamp : Text) :
    synthesize policy (withoutDeployGuards features) verdicts specs .simple stamp =
      synthesize policy features verdicts specs .simple stamp := by
  have same (limits : Limits) :
      blocks policy (JobContext.of (withoutDeployGuards features) verdicts .simple limits.expiry) specs .simple limits
        stamp = blocks policy (JobContext.of features verdicts .simple limits.expiry) specs .simple limits stamp := by
    have alike := unguarded_alike features verdicts limits.expiry
    have sections_ : sections policy (JobContext.of (withoutDeployGuards features) verdicts .simple limits.expiry) specs
        .simple limits stamp =
        sections policy (JobContext.of features verdicts .simple limits.expiry) specs .simple limits stamp := by
      unfold sections
      rw [Job.capability_jobs_alike alike]
      dsimp only [JobContext.of]
      rw [advisories_unguarded]
      rfl
    rw [blocks, blocks, sections_, Job.jobs_alike alike]
  have limits : Limits.of (withoutDeployGuards features) = Limits.of features := rfl
  unfold synthesize
  rw [limits]
  simp only [same]

end Dropped

/-- Every condition leaves a trace, except for one on a stage that deploys in the simple tier; there
    the configuration is the same as without it. -/
theorem synthesize_traces_guards (policy : ReviewPolicy) (features : FeatureSet) (verdicts : List Verdict)
    (specs : List VariableSpec) (tier : ComplexityTier) (stamp text : Text)
    (made : synthesize policy features verdicts specs tier stamp = .ok text) :
    (∃ limits, Limits.of features = .ok limits ∧
      ∀ g ∈ features.guards, tier ≠ .simple ∨ Job.isDeployStage g.stage = false →
        Traced (JobContext.of features verdicts tier limits.expiry) text g) ∧
    (tier = .simple → synthesize policy (withoutDeployGuards features) verdicts specs tier stamp = .ok text) := by
  refine ⟨?_, fun simple => ?_⟩
  · obtain ⟨limits, written, rfl⟩ := synthesize_document made
    refine ⟨limits, written, fun g member kept => ?_⟩
    cases deploys : Job.isDeployStage g.stage with
    | false => exact advisory_traced policy _ specs tier limits stamp member deploys
    | true =>
      have staged := (deploy_staged_iff features verdicts tier limits.expiry).2
        (kept.resolve_right (by rw [deploys]; exact Bool.noConfusion))
      exact deploy_traced policy _ specs tier limits stamp member staged deploys
  · rw [simple, synthesize_unguarded, ← simple]
    exact made

-- A stage that deploys on one branch only.
def branchGuard : Guard := { condition := .branch, expression := "main", stage := "Deploy" }
def branchFeatures : FeatureSet := { guards := [branchGuard] }

theorem branch_guard_traced : ∃ text, synthesize {} branchFeatures [] [] .medium [] = .ok text ∧
    ∃ expiry, Traced (JobContext.of branchFeatures [] .medium expiry) text branchGuard := by
  obtain ⟨⟨limits, -, traced⟩, -⟩ := synthesize_traces_guards {} branchFeatures [] [] .medium [] _ rfl
  exact ⟨_, rfl, limits.expiry, traced branchGuard List.mem_cons_self (.inl (by decide))⟩

theorem Traced.told {c : JobContext} {text : Text} (traced : Traced c text branchGuard) : "main".toList <:+: text := by
  have told (l : Text) (shown : Shows text [l]) (inside : Text.hasPart l "main" = true) : "main".toList <:+: text :=
    (Text.hasPart_iff.1 inside).trans shown.within
  cases traced with
  | rule r translated _ shown inside =>
    have line : ("    - if: ".toList ++ Yaml.singleQuote r.condition) ∈ Job.ruleLines r := List.mem_cons_self
    refine told _ ((shown.part inside).line line) ?_
    rw [← Option.some.inj translated]
    decide
  | untranslated shown => exact told _ shown (by decide)
  | condition shown => exact told _ shown (by decide)

/-- In the simple tier the condition on the stage is nowhere in the text. -/
theorem branch_guard_dropped : ∃ text, synthesize {} branchFeatures [] [] .simple [] = .ok text ∧
    ∀ c, ¬ Traced c text branchGuard := by
  have silent : (synthesize {} branchFeatures [] [] .simple []).toOption.any (fun text => !Text.hasPart text "main") =
      true := by decide +kernel
  cases made : synthesize {} branchFeatures [] [] .simple [] with
  | error fault =>
    rw [made] at silent
    cases silent
  | ok text =>
    rw [made] at silent
    refine ⟨text, rfl, fun c traced => ?_⟩
    have unsaid : (!Text.hasPart text "main") = true := silent
    rw [Text.hasPart_iff.2 traced.told] at unsaid
    cases unsaid

end Configuration
end PipelineMigration
