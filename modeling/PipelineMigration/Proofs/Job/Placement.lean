import Mathlib.Data.List.Forall2
import PipelineMigration.Job.Capability
set_option autoImplicit false

/- Every single job has its place: its stage is one of the pipeline's, it does something, and it
   needs at most the build, which runs in an earlier stage. All of it rests on the context being
   sound, that is, on its stages and its tool being ones that verdicts can lead to. -/
namespace PipelineMigration

def BuildTool.all : List BuildTool := BuildTool.generic :: BuildTool.byCapability.map (·.2)

theorem BuildTool.of_mem_all (verdicts : List Verdict) : BuildTool.of verdicts ∈ BuildTool.all := by
  unfold BuildTool.of Option.getD
  split
  · rename_i tool same
    obtain ⟨entry, found, rfl⟩ := Option.map_eq_some_iff.1 same
    exact List.mem_cons_of_mem _ (List.mem_map_of_mem (List.mem_of_find?_eq_some found))
  · exact List.mem_cons_self

namespace Job

-- The stage lists that a tier can lead to, with and without a stage for packaging.
def stageLists (packaged : Bool) : List (List Text) :=
  let middle : List Text := if packaged then ["package"] else []
  [baseStages .simple ++ middle, baseStages .medium ++ middle ++ ["deploy".toList],
    baseStages .complex ++ middle ++ ["deploy".toList, "cleanup".toList],
    baseStages .simple ++ middle ++ ["deploy".toList]]

theorem select_stages_mem (tier : ComplexityTier) (verdicts : List Verdict) :
    selectStages tier verdicts ∈ stageLists (verdicts.any fun v => v.id == "docker-workflow".toList) := by
  unfold selectStages
  cases verdicts.any fun v => v.id == "docker-workflow".toList <;>
    cases tier <;> simp [stageLists, baseStages]

/-- Whether a stage comes strictly before another one. -/
def Precedes (stages : List Text) (earlier later : Text) : Prop :=
  later ∈ stages ∧ stages.idxOf earlier < stages.idxOf later

instance (stages : List Text) (earlier later : Text) : Decidable (Precedes stages earlier later) :=
  inferInstanceAs (Decidable (_ ∧ _))

/-- A job that has its place: a stage, something to do, and no need but the build before it. -/
structure Placed (stages : List Text) (j : Job) : Prop where
  staged : j.stage ∈ stages ∨ j.stage = postStage
  active : j.acts = true
  needed : ∀ need ∈ j.needs.getD [], need = buildName ∧ Precedes stages "build" j.stage

end Job

structure JobContext.Sound (c : JobContext) : Prop where
  stages : c.stages ∈ Job.stageLists (c.has "docker-workflow")
  tool : c.tool ∈ BuildTool.all

theorem JobContext.of_sound (features : FeatureSet) (verdicts : List Verdict) (tier : ComplexityTier)
    (expiry : Option Text) : (JobContext.of features verdicts tier expiry).Sound :=
  ⟨Job.select_stages_mem tier verdicts, BuildTool.of_mem_all verdicts⟩

namespace Job

theorem tool_builds : ∀ tool ∈ BuildTool.all, tool.build ≠ [] ∧ tool.test ≠ [] := by decide

theorem stages_begin : ∀ packaged, ∀ stages ∈ stageLists packaged,
    "build".toList ∈ stages ∧ Precedes stages "build" "test" := by decide

theorem stage_for_deploy : ∀ packaged, ∀ stages ∈ stageLists packaged,
    stageFor stages ["deploy", "test"] ∈ stages ∧
      Precedes stages "build" (stageFor stages ["deploy", "test"]) := by decide

theorem stage_for_quality : ∀ packaged, ∀ stages ∈ stageLists packaged,
    stageFor stages ["quality", "test"] ∈ stages ∧
      Precedes stages "build" (stageFor stages ["quality", "test"]) := by decide

theorem stage_for_test : ∀ packaged, ∀ stages ∈ stageLists packaged,
    stageFor stages ["test"] ∈ stages ∧ Precedes stages "build" (stageFor stages ["test"]) := by decide

theorem stage_for_build : ∀ packaged, ∀ stages ∈ stageLists packaged,
    stageFor stages ["build"] ∈ stages := by decide

theorem stage_for_package : ∀ stages ∈ stageLists true,
    stageFor stages ["package", "build"] ∈ stages ∧
      Precedes stages "build" (stageFor stages ["package", "build"]) := by decide

theorem deploy_after_build : ∀ packaged, ∀ stages ∈ stageLists packaged,
    "deploy".toList ∈ stages → Precedes stages "build" "deploy" := by decide

theorem acts_of_script (j : Job) (script : j.script ≠ []) : j.acts = true := by
  simp [acts, script]

theorem placed_after_build (stages : List Text) (j : Job)
    (stage : j.stage ∈ stages ∧ Precedes stages "build" j.stage) (script : j.script ≠ [])
    (needs : j.needs = some [buildName]) : Placed stages j := by
  refine ⟨.inl stage.1, acts_of_script j script, fun need member => ⟨?_, stage.2⟩⟩
  simpa [needs] using member

theorem placed_alone (stages : List Text) (j : Job) (staged : j.stage ∈ stages ∨ j.stage = postStage)
    (active : j.acts = true) (needs : j.needs = none) : Placed stages j :=
  ⟨staged, active, by simp [needs]⟩

section Core

variable {c : JobContext} (sound : c.Sound)
include sound

theorem build_job_placed : Placed c.stages (buildJob c) :=
  placed_alone _ _ (.inl (stages_begin _ _ sound.stages).1)
    (acts_of_script (buildJob c) (tool_builds _ sound.tool).1) rfl

theorem test_stage : "test".toList ∈ c.stages ∧ Precedes c.stages "build" "test" :=
  have order := (stages_begin _ _ sound.stages).2
  ⟨order.1, order⟩

theorem test_job_placed : Placed c.stages (testJob c) :=
  placed_after_build c.stages (testJob c) (test_stage sound) (tool_builds _ sound.tool).2 rfl

theorem matrix_jobs_placed : ∀ j ∈ matrixJobs c, Placed c.stages j := by
  intro j member
  unfold matrixJobs at member
  split at member
  · cases member
  · obtain rfl := List.mem_singleton.1 member
    exact placed_after_build _ _ (test_stage sound) (List.cons_ne_nil _ _) rfl

theorem parallel_job_placed (slug name : Text) : Placed c.stages (parallelJob slug name) :=
  placed_after_build c.stages (parallelJob slug name) (test_stage sound) (List.cons_ne_nil _ _) rfl

theorem parallel_jobs_placed : ∀ j ∈ parallelJobs c, Placed c.stages j := by
  intro j member
  obtain ⟨i, bound, rfl⟩ := List.getElem_of_mem member
  simpa [parallelJobs] using parallel_job_placed sound _ _

theorem deploy_job_placed (stage : c.hasStage "deploy" = true) : Placed c.stages (deployJob c) := by
  have present : "deploy".toList ∈ c.stages := List.contains_iff_mem.1 stage
  exact placed_after_build c.stages (deployJob c)
    ⟨present, deploy_after_build _ _ sound.stages present⟩ (List.cons_ne_nil _ _) rfl

end Core

theorem notify_job_placed (stages : List Text) (phase : PostPhase) (actions : List PostAction) (j : Job)
    (made : notifyJob? phase actions = some j) : Placed stages j := by
  unfold notifyJob? at made
  dsimp only at made
  split at made
  · cases made
  · rename_i channel
    have same := Option.some.inj made
    rw [← same]
    refine placed_alone stages _ (.inr rfl) (acts_of_script _ ?_) rfl
    dsimp only
    intro empty
    obtain ⟨noChat, noMail⟩ := List.append_eq_nil_iff.1 empty
    by_cases chat : actions.contains .slackNotification = true
    · rw [if_pos chat] at noChat
      cases noChat
    · have silent : .slackNotification ∉ actions := fun named => chat (List.contains_iff_mem.2 named)
      have mail : actions.contains .emailNotification = true := by simpa [silent] using channel
      rw [if_pos mail] at noMail
      cases noMail

theorem cleanup_jobs_placed (c : JobContext) : ∀ j ∈ cleanupJobs c, Placed c.stages j := by
  intro j member
  unfold cleanupJobs at member
  split at member
  · obtain rfl := List.mem_singleton.1 member
    refine placed_alone _ _ ?_ (acts_of_script _ (List.cons_ne_nil _ _)) rfl
    by_cases stage : c.hasStage "cleanup" = true
    · rw [if_pos stage]
      exact .inl (List.contains_iff_mem.1 stage)
    · rw [if_neg stage]
      exact .inr rfl
  · cases member

theorem core_jobs_placed (c : JobContext) (sound : c.Sound) : ∀ j ∈ coreJobs c, Placed c.stages j := by
  intro j member
  simp only [coreJobs, postJobs, List.cons_append, List.mem_cons, List.mem_append,
    List.mem_filterMap] at member
  rcases member with rfl | rfl | ((matrix | parallel) | deploy) | ⟨action, -, made⟩ | cleanup
  · exact build_job_placed sound
  · exact test_job_placed sound
  · exact matrix_jobs_placed sound j matrix
  · exact parallel_jobs_placed sound j parallel
  · split at deploy
    · rename_i stage
      obtain rfl := List.mem_singleton.1 deploy
      exact deploy_job_placed sound stage
    · cases deploy
  · exact notify_job_placed _ _ _ _ made
  · exact cleanup_jobs_placed c j cleanup

-- The jobs of capabilities whose stubs never decline.
def plainStubs (c : JobContext) : List (Text × Job) :=
  [("docker-workflow", dockerJob c), ("sonarqube", sonarJob c), ("kubernetes-cd", kubernetesJob c),
    ("terraform", terraformJob c), ("ansible", ansibleJob c), ("pipeline-build-step", downstreamJob c),
    ("cypress", cypressJob c)]

/-- How a job comes to stand for a verdict, given the names taken before it. -/
inductive Stubbed (c : JobContext) (taken : List Text) (v : Verdict) : Job → Prop where
  | plain (j : Job) (entry : (v.id, j) ∈ plainStubs c) : Stubbed c taken v j
  | cloud (id : v.id = "pipeline-aws".toList ∨ v.id = "s3".toList) (free : awsName ∉ taken) :
      Stubbed c taken v (awsJob c)
  | hook (id : v.id = "slack".toList) (quiet : c.features.postActions = []) :
      Stubbed c taken v (hookJob v)

theorem stub_inversion (c : JobContext) (taken : List Text) (v : Verdict) (j : Job)
    (made : ((Keyed.get? v.id stubs).bind fun stub => stub c taken v) = some j) :
    Stubbed c taken v j := by
  obtain ⟨stub, found, result⟩ := Option.bind_eq_some_iff.1 made
  have entry := Keyed.mem_of_get? found
  simp only [stubs, List.mem_cons, Prod.mk.injEq, List.not_mem_nil, or_false] at entry
  have cloud (id : v.id = "pipeline-aws".toList ∨ v.id = "s3".toList)
      (result : awsStub c taken v = some j) : Stubbed c taken v j := by
    unfold awsStub at result
    split at result
    · cases result
    · rename_i free
      cases result
      exact .cloud id (by simpa using free)
  have plain (job : JobContext → Job) (entry : (v.id, job c) ∈ plainStubs c)
      (result : some (job c) = some j) : Stubbed c taken v j := by
    cases result
    exact .plain _ entry
  rcases entry with ⟨id, rfl⟩ | ⟨id, rfl⟩ | ⟨id, rfl⟩ | ⟨id, rfl⟩ | ⟨id, rfl⟩ | ⟨id, rfl⟩ | ⟨id, rfl⟩ |
    ⟨id, rfl⟩ | ⟨id, rfl⟩ | ⟨id, rfl⟩
  · exact plain dockerJob (List.mem_of_getElem? (i := 0) (id ▸ rfl)) result
  · exact plain sonarJob (List.mem_of_getElem? (i := 1) (id ▸ rfl)) result
  · exact plain kubernetesJob (List.mem_of_getElem? (i := 2) (id ▸ rfl)) result
  · exact plain terraformJob (List.mem_of_getElem? (i := 3) (id ▸ rfl)) result
  · exact plain ansibleJob (List.mem_of_getElem? (i := 4) (id ▸ rfl)) result
  · exact cloud (.inl id) result
  · exact cloud (.inr id) result
  · exact plain downstreamJob (List.mem_of_getElem? (i := 5) (id ▸ rfl)) result
  · exact plain cypressJob (List.mem_of_getElem? (i := 6) (id ▸ rfl)) result
  · unfold hookStub at result
    split at result
    · rename_i quiet
      cases result
      exact .hook id (List.isEmpty_iff.1 quiet)
    · cases result

-- How a capability job comes about: it stands for one of the verdicts, whose comments come before
-- those of its own.
theorem capability_job_inversion (c : JobContext) (threshold : Float) (taken : List Text)
    (verdicts : List Verdict) (entry : Text × Job)
    (made : entry ∈ capabilityJobsFrom c threshold taken verdicts) :
    ∃ v ∈ verdicts, ∃ earlier j, taken ⊆ earlier ∧ Stubbed c earlier v j ∧
      entry = (v.id, { j with comments := verdictComments threshold v ++ j.comments }) := by
  induction verdicts generalizing taken with
  | nil => cases made
  | cons v rest ih =>
    unfold capabilityJobsFrom at made
    split at made
    · obtain ⟨u, member, standing⟩ := ih taken made
      exact ⟨u, List.mem_cons_of_mem v member, standing⟩
    · rename_i j stub
      rcases List.mem_cons.1 made with rfl | later
      · exact ⟨v, List.mem_cons_self, taken, j, List.Subset.refl taken, stub_inversion c taken v j stub, rfl⟩
      · obtain ⟨u, member, earlier, k, wider, stubbed⟩ := ih _ later
        exact ⟨u, List.mem_cons_of_mem v member, earlier, k,
          fun n known => wider (List.mem_cons_of_mem _ known), stubbed⟩

theorem stubbed_placed (c : JobContext) (sound : c.Sound) (taken : List Text) (v : Verdict) (j : Job)
    (known : v ∈ c.verdicts) (stubbed : Stubbed c taken v j) : Placed c.stages j := by
  have deploy := stage_for_deploy _ _ sound.stages
  cases stubbed with
  | cloud id free => exact placed_alone _ _ (.inl deploy.1) rfl rfl
  | hook id quiet => exact placed_alone _ _ (.inr rfl) rfl rfl
  | plain j entry =>
    simp only [plainStubs, List.mem_cons, Prod.mk.injEq, List.not_mem_nil, or_false] at entry
    rcases entry with ⟨id, rfl⟩ | ⟨id, rfl⟩ | ⟨id, rfl⟩ | ⟨id, rfl⟩ | ⟨id, rfl⟩ | ⟨id, rfl⟩ | ⟨id, rfl⟩
    · have packaged : c.has "docker-workflow" = true :=
        List.any_eq_true.2 ⟨v, known, beq_iff_eq.2 id⟩
      exact placed_after_build c.stages (dockerJob c)
        (stage_for_package _ (packaged ▸ sound.stages)) (List.cons_ne_nil _ _) rfl
    · exact placed_after_build c.stages (sonarJob c) (stage_for_quality _ _ sound.stages)
        (List.cons_ne_nil _ _) rfl
    · exact placed_after_build c.stages (kubernetesJob c) deploy (List.cons_ne_nil _ _) rfl
    · exact placed_alone c.stages (terraformJob c) (.inl (stage_for_build _ _ sound.stages)) rfl rfl
    · exact placed_alone c.stages (ansibleJob c) (.inl deploy.1) rfl rfl
    · exact placed_alone c.stages (downstreamJob c) (.inl deploy.1) rfl rfl
    · exact placed_after_build c.stages (cypressJob c) (stage_for_test _ _ sound.stages)
        (List.cons_ne_nil _ _) rfl

theorem capability_jobs_placed (c : JobContext) (sound : c.Sound) (threshold : Float) :
    ∀ entry ∈ capabilityJobs c threshold, Placed c.stages entry.2 := by
  intro entry made
  obtain ⟨v, known, earlier, j, -, stubbed, rfl⟩ := capability_job_inversion c threshold _ _ entry made
  have placed := stubbed_placed c sound earlier v j known stubbed
  exact ⟨placed.staged, placed.active, placed.needed⟩

theorem jobs_placed (c : JobContext) (sound : c.Sound) (threshold : Float) :
    ∀ j ∈ jobs c threshold, Placed c.stages j := by
  intro j member
  rcases List.mem_append.1 member with core | capability
  · exact core_jobs_placed c sound j core
  · obtain ⟨entry, made, rfl⟩ := List.mem_map.1 capability
    exact capability_jobs_placed c sound threshold entry made

end Job

/- What the jobs of capabilities rest on: of a context its stages and the actions after a run, of a
   verdict everything but its note. Contexts alike in the first have the same jobs for verdicts alike
   in the second. -/

/-- Verdicts that are equal but for their notes. -/
def Verdict.Alike (v w : Verdict) : Prop := v.withoutNote = w.withoutNote

-- What does not read the note is the same on verdicts that are alike.
theorem Verdict.Alike.read {α : Type} {v w : Verdict} (same : v.Alike w) (f : Verdict → α)
    (unread : ∀ v, f v.withoutNote = f v) : f v = f w := by
  rw [← unread v, ← unread w]
  exact congrArg f same

namespace Job

section Contexts

variable {c d : JobContext} (stages : c.stages = d.stages)
  (actions : c.features.postActions = d.features.postActions)

include stages actions

theorem stub_alike (taken : List Text) {v w : Verdict} (same : v.Alike w) :
    ((Keyed.get? v.id stubs).bind fun stub => stub c taken v) =
      (Keyed.get? w.id stubs).bind fun stub => stub d taken w := by
  rw [same.read Verdict.id fun _ => rfl]
  cases found : Keyed.get? w.id stubs with
  | none => rfl
  | some stub =>
    have entry := Keyed.mem_of_get? found
    simp only [stubs, List.mem_cons, Prod.mk.injEq, List.not_mem_nil, or_false] at entry
    have hook : hookStub c taken v = hookStub d taken w := by
      rw [hookStub, hookStub, actions, same.read hookJob fun _ => rfl]
    obtain ⟨_, _, stagesOfC, _, _⟩ := c
    obtain ⟨_, _, stagesOfD, _, _⟩ := d
    obtain rfl : stagesOfC = stagesOfD := stages
    rcases entry with ⟨-, rfl⟩ | ⟨-, rfl⟩ | ⟨-, rfl⟩ | ⟨-, rfl⟩ | ⟨-, rfl⟩ | ⟨-, rfl⟩ | ⟨-, rfl⟩ |
      ⟨-, rfl⟩ | ⟨-, rfl⟩ | ⟨-, rfl⟩
    -- The last stub is the only one that reads more than the stages.
    on_goal 10 => exact hook
    all_goals rfl

theorem capability_jobs_from_alike (threshold : Float) (taken : List Text) {verdicts others : List Verdict}
    (same : List.Forall₂ Verdict.Alike verdicts others) :
    capabilityJobsFrom c threshold taken verdicts = capabilityJobsFrom d threshold taken others := by
  induction same generalizing taken with
  | nil => rfl
  | cons first _ ih =>
    rw [capabilityJobsFrom, capabilityJobsFrom, stub_alike stages actions taken first]
    simp only [first.read Verdict.id fun _ => rfl, first.read (verdictComments threshold) fun _ => rfl, ih]

end Contexts

/-- Contexts that lead to the same jobs. -/
structure Alike (c d : JobContext) : Prop where
  stages : c.stages = d.stages
  actions : c.features.postActions = d.features.postActions
  core : coreJobs c = coreJobs d
  verdicts : List.Forall₂ Verdict.Alike c.verdicts d.verdicts

variable {c d : JobContext} (same : Alike c d) (threshold : Float)

include same

theorem capability_jobs_alike : capabilityJobs c threshold = capabilityJobs d threshold := by
  rw [capabilityJobs, capabilityJobs, same.core]
  exact capability_jobs_from_alike same.stages same.actions threshold _ same.verdicts

theorem jobs_alike : jobs c threshold = jobs d threshold := by
  rw [jobs, jobs, same.core, capability_jobs_alike same]

end Job
end PipelineMigration
