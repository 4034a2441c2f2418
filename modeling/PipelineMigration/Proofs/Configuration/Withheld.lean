import PipelineMigration.Configuration.Document
import PipelineMigration.Proofs.Job.Placement
set_option autoImplicit false

/- Withheld values leave no trace. Two feature sets that differ in withheld values alone have the same
   variable entries, since a withheld entry tells the name and nothing of the value, and no other
   section or job reads what a variable holds. -/
namespace PipelineMigration

namespace Keyed

variable {κ α β : Type} [BEq κ]

/-- Pairs under one key whose values are related. -/
def Matched (related : κ → α → β → Prop) (a : κ × α) (b : κ × β) : Prop :=
  a.1 = b.1 ∧ related a.1 a.2 b.2

variable {related : κ → α → β → Prop}

omit [BEq κ] in
theorem matched_keys {left : List (κ × α)} {right : List (κ × β)}
    (agree : List.Forall₂ (Matched related) left right) : left.map (·.1) = right.map (·.1) := by
  induction agree with
  | nil => rfl
  | cons same _ ih => simp [same.1, ih]

theorem has_eq_any (key : κ) (entries : List (κ × α)) :
    has key entries = (entries.map (·.1)).any (· == key) := by
  simp [has, List.any_map, Function.comp_def]

theorem matched_has {left : List (κ × α)} {right : List (κ × β)}
    (agree : List.Forall₂ (Matched related) left right) (key : κ) : has key left = has key right := by
  rw [has_eq_any, has_eq_any, matched_keys agree]

theorem matched_offer {left : List (κ × α)} {right : List (κ × β)} {a : κ × α} {b : κ × β}
    (agree : List.Forall₂ (Matched related) left right) (same : Matched related a b) :
    List.Forall₂ (Matched related) (offer a.1 a.2 left) (offer b.1 b.2 right) := by
  unfold offer
  rw [matched_has agree a.1, same.1]
  split
  · exact agree
  · exact List.rel_append agree (.cons ⟨rfl, same.1 ▸ same.2⟩ .nil)

theorem matched_first_of_pairs {left : List (κ × α)} {right : List (κ × β)}
    (agree : List.Forall₂ (Matched related) left right) :
    List.Forall₂ (Matched related) (firstOfPairs left) (firstOfPairs right) := by
  unfold firstOfPairs
  refine List.rel_foldl (P := List.Forall₂ (Matched related)) ?_ .nil agree
  exact fun _ _ held _ _ same => matched_offer held same

omit [BEq κ] in
theorem matched_filter {left : List (κ × α)} {right : List (κ × β)}
    (agree : List.Forall₂ (Matched related) left right) (keep : κ → Bool) :
    List.Forall₂ (Matched related) (left.filter fun e => keep e.1) (right.filter fun e => keep e.1) := by
  induction agree with
  | nil => exact .nil
  | cons same _ ih =>
    rw [List.filter_cons, List.filter_cons, same.1]
    split
    · exact .cons same ih
    · exact ih

omit [BEq κ] in
theorem matched_map {γ : Type} {left : List (κ × α)} {right : List (κ × β)}
    (agree : List.Forall₂ (Matched related) left right) (f : κ × α → γ) (g : κ × β → γ)
    (same : ∀ a b, Matched related a b → f a = g b) : left.map f = right.map g := by
  induction agree with
  | nil => rfl
  | cons first _ ih => rw [List.map_cons, List.map_cons, same _ _ first, ih]

end Keyed

namespace Job

-- The context with other parameters and environment values; jobs read neither.
def withVariables (c : JobContext) (parameters : List Parameter) (environment : List (Text × Text)) :
    JobContext :=
  { c with features := { c.features with parameters, environment } }

theorem variables_unread (c : JobContext) (parameters : List Parameter) (environment : List (Text × Text)) :
    Alike (withVariables c parameters environment) c :=
  ⟨rfl, rfl, rfl, List.forall₂_same.2 fun _ _ => rfl⟩

end Job

namespace Configuration

/-- Two parameters that differ at most in a withheld default: that of a password or of a planned
    variable, or one under the name of a secret, there in both. -/
structure AgreesParameter (secrets : List Text) (p q : Parameter) : Prop where
  same : q = { p with default := q.default }
  withheld : p.default = q.default ∨ p.kind = .password ∨ p.name ∈ secrets ∨
    (looksSecret p.name = true ∧ p.default ≠ [] ∧ q.default ≠ [])

/-- Two values of an environment entry, alike unless they are withheld. -/
def AgreesValue (secrets : List Text) (key v w : Text) : Prop :=
  v = w ∨ key ∈ secrets ∨ looksSecret key = true

/-- Two feature sets that are equal except for withheld values. -/
structure AgreeButSecrets (secrets : List Text) (f g : FeatureSet) : Prop where
  parameters : List.Forall₂ (AgreesParameter secrets) f.parameters g.parameters
  environment : List.Forall₂ (Keyed.Matched (AgreesValue secrets)) f.environment g.environment
  rest : g = { f with parameters := g.parameters, environment := g.environment }

theorem AgreesParameter.same_name {secrets : List Text} {p q : Parameter}
    (agree : AgreesParameter secrets p q) : p.name = q.name := by
  rw [agree.same]

theorem parameter_entry_agrees (secrets : List Text) (p q : Parameter)
    (agree : AgreesParameter secrets p q) : parameterEntry secrets p = parameterEntry secrets q := by
  rcases agree.withheld with default | password | planned | ⟨named, left, right⟩
  · rw [agree.same, ← default]
  · rw [agree.same]
    simp only [parameterEntry, password, beq_self_eq_true, Bool.true_or, if_true]
  · rw [agree.same]
    simp only [parameterEntry, List.contains_iff_mem.2 planned, Bool.or_true, if_true]
  · rw [agree.same]
    simp only [parameterEntry, List.isEmpty_eq_false_iff.2 left, List.isEmpty_eq_false_iff.2 right, named,
      Bool.not_false, Bool.true_and, if_true]

theorem environment_entry_agrees (secrets : List Text) (key v w : Text)
    (agree : AgreesValue secrets key v w) :
    environmentEntry secrets key v = environmentEntry secrets key w := by
  rcases agree with rfl | planned | named
  · rfl
  · simp only [environmentEntry, List.contains_iff_mem.2 planned, if_true]
  · simp only [environmentEntry, named, if_true]

section Agree

variable {secrets : List Text} {f g : FeatureSet} (agree : AgreeButSecrets secrets f g)

include agree

theorem own_parameters_agree :
    List.Forall₂ (Keyed.Matched fun _ => AgreesParameter secrets) (ownParameters f) (ownParameters g) := by
  refine Keyed.matched_first_of_pairs (List.forall₂_map_left_iff.2 (List.forall₂_map_right_iff.2 ?_))
  exact agree.parameters.imp fun p q same => ⟨same.same_name, same⟩

theorem own_environment_agrees :
    List.Forall₂ (Keyed.Matched (AgreesValue secrets)) (ownEnvironment f) (ownEnvironment g) := by
  have shadowed (name : Text) := Keyed.matched_has (own_parameters_agree agree) name
  unfold ownEnvironment
  simp only [← shadowed]
  exact Keyed.matched_filter (Keyed.matched_first_of_pairs agree.environment)
    fun name => !Keyed.has name (ownParameters f)

theorem own_tool_variables_agree (tool : BuildTool) : ownToolVariables f tool = ownToolVariables g tool := by
  have shadowed (name : Text) := Keyed.matched_has (own_parameters_agree agree) name
  have present (name : Text) := Keyed.matched_has agree.environment name
  unfold ownToolVariables
  simp only [shadowed, present]

theorem source_entries_agree (tool : BuildTool) :
    sourceEntries f secrets tool = sourceEntries g secrets tool := by
  unfold sourceEntries
  rw [own_tool_variables_agree agree]
  refine congrArg₂ (· ++ ·) (congrArg₂ (· ++ ·) ?_ ?_) rfl
  · exact Keyed.matched_map (own_parameters_agree agree) _ _ fun a b same =>
      parameter_entry_agrees secrets a.2 b.2 same.2
  · exact Keyed.matched_map (own_environment_agrees agree) _ _ fun a b same =>
      (environment_entry_agrees secrets a.1 a.2 b.2 same.2).trans (by rw [same.1])

theorem workflow_section_agrees : workflowSection f.parameters = workflowSection g.parameters := by
  have empty : f.parameters.isEmpty = g.parameters.isEmpty := by
    rw [Bool.eq_iff_iff, List.isEmpty_iff_length_eq_zero, List.isEmpty_iff_length_eq_zero,
      agree.parameters.length_eq]
  unfold workflowSection
  rw [empty]

theorem limits_agree : Limits.of f = Limits.of g := by
  rw [agree.rest]
  rfl

theorem context_agrees (verdicts : List Verdict) (tier : ComplexityTier) (expiry : Option Text) :
    JobContext.of g verdicts tier expiry =
      Job.withVariables (JobContext.of f verdicts tier expiry) g.parameters g.environment := by
  conv_lhs => rw [agree.rest]
  rfl

end Agree

theorem sections_agree (policy : ReviewPolicy) (specs : List VariableSpec) {f g : FeatureSet}
    (agree : AgreeButSecrets (secretNames specs) f g) (verdicts : List Verdict) (tier : ComplexityTier)
    (limits : Limits) (stamp : Text) :
    sections policy (JobContext.of f verdicts tier limits.expiry) specs tier limits stamp =
      sections policy (JobContext.of g verdicts tier limits.expiry) specs tier limits stamp := by
  have entries : variableEntries f specs (BuildTool.of verdicts) policy.generic =
      variableEntries g specs (BuildTool.of verdicts) policy.generic := by
    unfold variableEntries
    rw [source_entries_agree agree]
  have workflow := workflow_section_agrees agree
  have jobs := Job.capability_jobs_alike (Job.variables_unread (JobContext.of f verdicts tier limits.expiry)
    g.parameters g.environment) policy.threshold
  rw [← context_agrees agree] at jobs
  have advised (inJobs : List Text) : advisories f verdicts policy.threshold inJobs =
      advisories g verdicts policy.threshold inJobs := by
    rw [agree.rest]
    rfl
  have headed : f.style = g.style := by rw [agree.rest]
  have kept : f.retention = g.retention := by rw [agree.rest]
  unfold sections
  rw [jobs]
  dsimp only [JobContext.of]
  rw [entries, workflow, advised, headed, kept]

/-- Whatever the withheld values are, one configuration comes out. -/
theorem synthesize_withholds (policy : ReviewPolicy) (f g : FeatureSet) (verdicts : List Verdict)
    (specs : List VariableSpec) (tier : ComplexityTier) (stamp : Text)
    (agree : AgreeButSecrets (secretNames specs) f g) :
    synthesize policy f verdicts specs tier stamp = synthesize policy g verdicts specs tier stamp := by
  have blocksAgree (limits : Limits) :
      blocks policy (JobContext.of f verdicts tier limits.expiry) specs tier limits stamp =
        blocks policy (JobContext.of g verdicts tier limits.expiry) specs tier limits stamp := by
    have jobs := Job.jobs_alike (Job.variables_unread (JobContext.of f verdicts tier limits.expiry)
      g.parameters g.environment) policy.threshold
    rw [← context_agrees agree] at jobs
    unfold blocks
    rw [sections_agree policy specs agree, jobs]
  unfold synthesize
  rw [limits_agree agree]
  simp only [blocksAgree]

-- A password, a default and two environment values, one of them planned, in place of others.
def exposedFeatures : FeatureSet :=
  { parameters := [{ name := "PIN", kind := .password, default := "1234" },
      { name := "API_TOKEN", kind := .string, default := "t0k3n" },
      { name := "REGION", kind := .string, default := "eu" }]
    environment := [("DEPLOY_ACCOUNT", "robot"), ("DB_PASSWORD", "hunter2"), ("MODE", "fast")] }

def alteredFeatures : FeatureSet :=
  { parameters := [{ name := "PIN", kind := .password },
      { name := "API_TOKEN", kind := .string, default := "other" },
      { name := "REGION", kind := .string, default := "eu" }]
    environment := [("DEPLOY_ACCOUNT", "person"), ("DB_PASSWORD", ""), ("MODE", "fast")] }

def deploySpecs : List VariableSpec :=
  [{ sourceId := "deploy-account", key := "DEPLOY_ACCOUNT", valueKind := .text, masked := true
     protected_ := true, scope := "*", description := [], classifier := Classifier.generic.name }]

theorem secret_names_hold_account : "DEPLOY_ACCOUNT".toList ∈ secretNames deploySpecs := by decide

theorem altered_features_agree :
    AgreeButSecrets (secretNames deploySpecs) exposedFeatures alteredFeatures where
  parameters := .cons ⟨rfl, .inr (.inl rfl)⟩ <| .cons ⟨rfl, .inr (.inr (.inr (by decide)))⟩ <|
    .cons ⟨rfl, .inl rfl⟩ .nil
  environment := .cons ⟨rfl, .inr (.inl secret_names_hold_account)⟩ <|
    .cons ⟨rfl, .inr (.inr (by decide))⟩ <| .cons ⟨rfl, .inl rfl⟩ .nil
  rest := rfl

theorem altered_features_synthesized : exposedFeatures ≠ alteredFeatures ∧
    AgreeButSecrets (secretNames deploySpecs) exposedFeatures alteredFeatures ∧
    synthesize {} exposedFeatures [] deploySpecs .simple "today" =
      synthesize {} alteredFeatures [] deploySpecs .simple "today" :=
  ⟨by decide, altered_features_agree,
    synthesize_withholds {} exposedFeatures alteredFeatures [] deploySpecs .simple "today"
      altered_features_agree⟩

end Configuration
end PipelineMigration
