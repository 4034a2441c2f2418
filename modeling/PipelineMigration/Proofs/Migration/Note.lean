import PipelineMigration.Configuration.Document
import PipelineMigration.Migration
import PipelineMigration.Proofs.Capability.Note
import PipelineMigration.Proofs.Job.Placement
set_option autoImplicit false

/- Notes do not reach the configuration: no job and no section reads them. -/
namespace PipelineMigration

theorem Capability.any_unnoted (verdicts : List Verdict) (id : Text) :
    ((verdicts.map Verdict.withoutNote).any fun v => v.id == id) = verdicts.any fun v => v.id == id :=
  List.any_map

namespace Job

theorem select_stages_unnoted (tier : ComplexityTier) (verdicts : List Verdict) :
    selectStages tier (verdicts.map Verdict.withoutNote) = selectStages tier verdicts := by
  rw [selectStages, selectStages, Capability.any_unnoted]

theorem build_tool_unnoted (verdicts : List Verdict) :
    BuildTool.of (verdicts.map Verdict.withoutNote) = BuildTool.of verdicts := by
  simp only [BuildTool.of, Capability.any_unnoted]

/-- The context with no notes on its verdicts. -/
def unnoted (c : JobContext) : JobContext := { c with verdicts := c.verdicts.map Verdict.withoutNote }

theorem context_unnoted (features : FeatureSet) (verdicts : List Verdict) (tier : ComplexityTier)
    (expiry : Option Text) : JobContext.of features (verdicts.map Verdict.withoutNote) tier expiry =
      unnoted (JobContext.of features verdicts tier expiry) := by
  rw [JobContext.of, select_stages_unnoted, build_tool_unnoted]
  rfl

section Core

variable (c : JobContext)

theorem has_unnoted (id : String) : (unnoted c).has id = c.has id := Capability.any_unnoted c.verdicts id.toList

theorem build_job_unnoted : buildJob (unnoted c) = buildJob c := by
  rw [buildJob, buildArtifacts, has_unnoted]
  rfl

theorem test_reports_unnoted : testReports (unnoted c) = testReports c := by
  have action : (unnoted c).hasAction .junitReport = c.hasAction .junitReport := rfl
  have tool : (unnoted c).tool = c.tool := rfl
  unfold testReports
  rw [has_unnoted, has_unnoted, has_unnoted, action, tool]

theorem test_job_unnoted : testJob (unnoted c) = testJob c := by
  have tool : (unnoted c).tool = c.tool := rfl
  unfold testJob
  rw [test_reports_unnoted, has_unnoted, tool]

theorem deploy_rules_unnoted : deployRules (unnoted c) = deployRules c := by
  have guards : deployGuards (unnoted c) = deployGuards c := rfl
  unfold deployRules manual?
  rw [has_unnoted, guards]

theorem deploy_job_unnoted : deployJob (unnoted c) = deployJob c := by
  have guards : deployGuards (unnoted c) = deployGuards c := rfl
  unfold deployJob
  rw [deploy_rules_unnoted, has_unnoted, guards]

theorem core_jobs_unnoted : coreJobs (unnoted c) = coreJobs c := by
  rw [coreJobs, build_job_unnoted, test_job_unnoted, deploy_job_unnoted]
  rfl

theorem notes_unread : Alike (unnoted c) c where
  stages := rfl
  actions := rfl
  core := core_jobs_unnoted c
  verdicts := List.forall₂_map_left_iff.2 (List.forall₂_same.2 fun _ _ => rfl)

end Core

end Job

namespace Configuration

theorem include_section_unnoted (verdicts : List Verdict) :
    includeSection (verdicts.map Verdict.withoutNote) = includeSection verdicts := by
  have same : templates (verdicts.map Verdict.withoutNote) = templates verdicts := by
    rw [templates, List.filterMap_map]
    rfl
  rw [includeSection, same]
  rfl

theorem advisories_unnoted (f : FeatureSet) (verdicts : List Verdict) (threshold : Float) (inJobs : List Text) :
    advisories f (verdicts.map Verdict.withoutNote) threshold inJobs = advisories f verdicts threshold inJobs := by
  rw [advisories, List.filter_map, List.flatMap_map]
  rfl

theorem blocks_unnoted (policy : ReviewPolicy) (c : JobContext) (specs : List VariableSpec)
    (tier : ComplexityTier) (limits : Limits) (stamp : Text) :
    blocks policy (Job.unnoted c) specs tier limits stamp = blocks policy c specs tier limits stamp := by
  have same := Job.notes_unread c
  have sections_ : sections policy (Job.unnoted c) specs tier limits stamp =
      sections policy c specs tier limits stamp := by
    rw [sections, Job.capability_jobs_alike same]
    simp only [Job.unnoted, Capability.score_unnoted, include_section_unnoted, advisories_unnoted]
    rfl
  rw [blocks, blocks, sections_, Job.jobs_alike same]

theorem synthesize_unnoted (policy : ReviewPolicy) (f : FeatureSet) (verdicts : List Verdict)
    (specs : List VariableSpec) (tier : ComplexityTier) (stamp : Text) :
    synthesize policy f (verdicts.map Verdict.withoutNote) specs tier stamp =
      synthesize policy f verdicts specs tier stamp := by
  simp only [synthesize, Job.context_unnoted, blocks_unnoted]

end Configuration

/- A migration with notes on its verdicts beside the same migration without: whether it comes about,
   its configuration, its variables and all that is counted are the same, and its checklist is the
   same but for the notes. -/

/-- Two computations that fail alike or whose results are related. -/
inductive Outcome.Agree {ε α β : Type} (related : α → β → Prop) : Except ε α → Except ε β → Prop where
  | failed (e : ε) : Agree related (.error e) (.error e)
  | done {a : α} {b : β} (held : related a b) : Agree related (.ok a) (.ok b)

theorem Outcome.Agree.bind {ε α β γ : Type} {related : β → γ → Prop} (x : Except ε α) {f : α → Except ε β}
    {g : α → Except ε γ} (each : ∀ a, Agree related (f a) (g a)) : Agree related (x >>= f) (x >>= g) := by
  cases x with
  | error e => exact .failed e
  | ok a => exact each a

namespace Migration

/-- A migration `m` on verdicts with notes and a migration `n` on the same verdicts without. -/
structure DiffersInNotes (noted : List Verdict) (m n : Migration) : Prop where
  verdicts : m.verdicts = noted
  /-- What is neither verdicts nor checklist is the same. -/
  rest : n = { m with verdicts := noted.map Verdict.withoutNote, checklist := n.checklist }
  reviews : m.reviewCount = n.reviewCount
  checklist : ∃ (order : List Verdict) (plain lines : List Text),
    order.Perm noted ∧ Capability.Annotated order plain lines ∧
    n.checklist = Text.join "\n" plain ++ "\n" ∧ m.checklist = Text.join "\n" lines ++ "\n"

theorem complexity_tier_unnoted (verdicts : List Verdict) (style : Option PipelineStyle) :
    ComplexityTier.of (verdicts.map Verdict.withoutNote) style = ComplexityTier.of verdicts style := by
  rw [ComplexityTier.of, List.length_map]
  rfl

/-- Notes on verdicts change a migration in its verdicts and its checklist alone. -/
theorem assemble_differs_in_notes (s : MigrationSettings) (extraction : Extraction) (hits : List CapabilityHit)
    (noted : List Verdict) (credentialHits : List CredentialHit) (options : PlanOptions) (stamp : Text) :
    Outcome.Agree (DiffersInNotes noted) (assemble s extraction hits noted credentialHits options stamp)
      (assemble s extraction hits (noted.map Verdict.withoutNote) credentialHits options stamp) := by
  unfold assemble
  simp only [complexity_tier_unnoted, Configuration.synthesize_unnoted, Capability.summarize_unnoted]
  refine .bind _ fun configuration => .bind _ fun report => .done ?_
  exact ⟨rfl, rfl, rfl, Capability.checklist_annotated noted⟩

end Migration
end PipelineMigration
