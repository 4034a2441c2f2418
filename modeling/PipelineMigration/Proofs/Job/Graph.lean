import PipelineMigration.Proofs.Job.Naming
import PipelineMigration.Proofs.Job.Placement
set_option autoImplicit false

/- The jobs of a pipeline form a graph over its stages: no two have one name, each stands in a stage
   that there is and does something, and what it needs is a job of an earlier stage. Names fall into
   fixed ones, those of parallel stages and those of phases, told apart by how they begin. -/
namespace PipelineMigration.Job

/-- Jobs that fit together: distinct names, and needs that earlier jobs of the list meet. -/
structure WellFormed (stages : List Text) (jobs : List Job) : Prop where
  distinct : (jobs.map (·.name)).Nodup
  staged : ∀ j ∈ jobs, j.stage ∈ stages ∨ j.stage = postStage
  active : ∀ j ∈ jobs, j.trigger ≠ none ∨ j.script ≠ []
  needed : ∀ j ∈ jobs, ∀ need ∈ j.needs.getD [],
    ∃ k ∈ jobs, k.name = need ∧ Precedes stages k.stage j.stage

def parallelMark : Text := "parallel:"
def notifyMark : Text := "notify:"

-- The names that core jobs have in every pipeline that has these jobs.
def fixedNames : List Text :=
  ["build:app", "test:unit", "test:matrix", "deploy:staging", "cleanup:workspace"]

-- The names of capability jobs, each with the capability.
def stubNames : List (Text × Text) :=
  [("docker-workflow", "package:docker"), ("sonarqube", "quality:sonar"),
    ("kubernetes-cd", "deploy:kubernetes"), ("terraform", "terraform:plan"),
    ("ansible", "deploy:ansible"), ("pipeline-build-step", "trigger:downstream"),
    ("cypress", "test:e2e"), ("pipeline-aws", "deploy:aws"), ("s3", "deploy:aws"),
    ("slack", "notify:slack")]

theorem phase_names_injective : ∀ p ∈ PostPhase.known, ∀ q ∈ PostPhase.known, p.name = q.name → p = q := by
  decide

theorem fixed_names_unmarked : ∀ n ∈ fixedNames,
    parallelMark.isPrefixOf n = false ∧ notifyMark.isPrefixOf n = false := by decide

theorem stub_names_apart : ∀ p ∈ stubNames, p.2 ∉ fixedNames ∧ parallelMark.isPrefixOf p.2 = false ∧
    (notifyMark.isPrefixOf p.2 = true → p.1 = "slack".toList) := by decide

-- Only the two cloud capabilities share a name.
theorem stub_names_shared : ∀ p ∈ stubNames, ∀ q ∈ stubNames, p.2 = q.2 → p.1 = q.1 ∨ p.2 = awsName := by
  decide

theorem marked_prefix (mark rest : Text) : mark.isPrefixOf (mark ++ rest) = true :=
  List.isPrefixOf_iff_prefix.2 (List.prefix_append mark rest)

theorem marks_apart (n : Text) (parallel : parallelMark.isPrefixOf n = true)
    (notify : notifyMark.isPrefixOf n = true) : False := by
  have nested := List.prefix_or_prefix_of_prefix (List.isPrefixOf_iff_prefix.1 parallel)
    (List.isPrefixOf_iff_prefix.1 notify)
  revert nested
  decide

theorem parallel_names (c : JobContext) : (parallelJobs c).map (·.name) =
    (slugsFrom [] c.features.parallelStages).map (parallelMark ++ ·) := by
  have aligned := length_slugs_from [] c.features.parallelStages
  refine List.ext_getElem (by simp [parallelJobs, aligned]) fun i left right => ?_
  simp only [parallelJobs, List.getElem_map, List.getElem_zipWith]
  rfl

theorem parallel_names_nodup (c : JobContext) : ((parallelJobs c).map (·.name)).Nodup := by
  rw [parallel_names]
  exact (slugs_from_nodup [] _).map fun _ _ same => List.append_cancel_left same

theorem parallel_names_marked (c : JobContext) :
    ∀ n ∈ (parallelJobs c).map (·.name), parallelMark.isPrefixOf n = true := by
  intro n member
  rw [parallel_names] at member
  obtain ⟨slug, -, rfl⟩ := List.mem_map.1 member
  exact marked_prefix parallelMark slug

theorem notify_job_name (phase : PostPhase) (actions : List PostAction) (j : Job)
    (made : notifyJob? phase actions = some j) : j.name = notifyMark ++ phase.name := by
  unfold notifyJob? at made
  dsimp only at made
  split at made
  · cases made
  · have same := Option.some.inj made
    rw [← same]
    rfl

def notifyJobs (phases : List (PostPhase × List PostAction)) : List Job :=
  phases.filterMap fun (phase, actions) => notifyJob? phase actions

theorem notify_names_sublist (phases : List (PostPhase × List PostAction)) :
    ((notifyJobs phases).map (·.name)).Sublist (phases.map fun p => notifyMark ++ p.1.name) := by
  induction phases with
  | nil => exact .slnil
  | cons entry rest ih =>
    unfold notifyJobs at ih ⊢
    rw [List.filterMap_cons]
    split
    · exact ih.cons _
    · rename_i j made
      rw [List.map_cons, List.map_cons, notify_job_name _ _ _ made]
      exact ih.cons_cons _

theorem notify_names_nodup (phases : List (PostPhase × List PostAction))
    (distinct : (phases.map (·.1)).Nodup) (known : ∀ p ∈ phases, p.1 ∈ PostPhase.known) :
    ((notifyJobs phases).map (·.name)).Nodup := by
  refine (notify_names_sublist phases).nodup ?_
  have names := (List.nodup_map_iff_inj_on (distinct.of_map _)).1 distinct
  refine (List.nodup_map_iff_inj_on (distinct.of_map _)).2 fun p hp q hq same => names p hp q hq ?_
  exact phase_names_injective _ (known p hp) _ (known q hq) (List.append_cancel_left same)

theorem notify_names_marked (phases : List (PostPhase × List PostAction)) :
    ∀ n ∈ (notifyJobs phases).map (·.name), notifyMark.isPrefixOf n = true := by
  intro n member
  obtain ⟨p, -, rfl⟩ := List.mem_map.1 ((notify_names_sublist phases).subset member)
  exact marked_prefix notifyMark p.1.name

theorem matrix_names (c : JobContext) :
    ((matrixJobs c).map (·.name)).Sublist ["test:matrix".toList] := by
  unfold matrixJobs
  split
  · exact List.nil_sublist _
  · exact List.Sublist.refl _

theorem deploy_names (c : JobContext) :
    ((if c.hasStage "deploy" then [deployJob c] else []).map (·.name)).Sublist ["deploy:staging".toList] := by
  split
  · exact List.Sublist.refl _
  · exact List.nil_sublist _

theorem cleanup_names (c : JobContext) :
    ((cleanupJobs c).map (·.name)).Sublist ["cleanup:workspace".toList] := by
  unfold cleanupJobs
  split
  · exact List.Sublist.refl _
  · exact List.nil_sublist _

def fixedJobs (c : JobContext) : List Job :=
  [buildJob c, testJob c] ++ (matrixJobs c ++
    ((if c.hasStage "deploy" then [deployJob c] else []) ++ cleanupJobs c))

theorem fixed_names_sublist (c : JobContext) : ((fixedJobs c).map (·.name)).Sublist fixedNames := by
  simp only [fixedJobs, List.map_append]
  exact (List.Sublist.refl ["build:app".toList, "test:unit".toList]).append
    ((matrix_names c).append ((deploy_names c).append (cleanup_names c)))

-- The order of core jobs plays no part in whether their names differ.
theorem core_jobs_perm (c : JobContext) :
    (coreJobs c).Perm (fixedJobs c ++ (parallelJobs c ++ notifyJobs c.features.postActions)) := by
  refine List.perm_iff_count.2 fun j => ?_
  simp only [coreJobs, fixedJobs, postJobs, notifyJobs, List.count_append, List.cons_append,
    List.count_cons, List.nil_append]
  omega

theorem core_names_nodup (c : JobContext) (distinct : (c.features.postActions.map (·.1)).Nodup)
    (known : ∀ p ∈ c.features.postActions, p.1 ∈ PostPhase.known) :
    ((coreJobs c).map (·.name)).Nodup := by
  refine ((core_jobs_perm c).map _).nodup_iff.2 ?_
  rw [List.map_append, List.map_append]
  have fixed := fixed_names_sublist c
  have fixedNodup : fixedNames.Nodup := by decide
  refine List.nodup_append'.2 ⟨fixed.nodup fixedNodup, List.nodup_append'.2
    ⟨parallel_names_nodup c, notify_names_nodup _ distinct known, ?_⟩, ?_⟩
  · intro n parallel notify
    exact marks_apart n (parallel_names_marked c n parallel) (notify_names_marked _ n notify)
  · intro n plain marked
    have unmarked := fixed_names_unmarked n (fixed.subset plain)
    rcases List.mem_append.1 marked with parallel | notify
    · exact absurd (parallel_names_marked c n parallel) (by simp [unmarked.1])
    · exact absurd (notify_names_marked _ n notify) (by simp [unmarked.2])

-- The first seven stubs are the plain ones.
theorem plain_names_apart : ∀ p ∈ stubNames.take 7, p.2 ≠ awsName ∧ p.1 ≠ "slack".toList := by decide

theorem plain_stub_name (c : JobContext) (id : Text) (j : Job) (entry : (id, j) ∈ plainStubs c) :
    (id, j.name) ∈ stubNames.take 7 := by
  have named : (plainStubs c).map (fun p => (p.1, p.2.name)) = stubNames.take 7 := rfl
  rw [← named]
  exact List.mem_map_of_mem (f := fun p => (p.1, p.2.name)) entry

theorem hook_job_name (v : Verdict) (id : v.id = "slack".toList) :
    (hookJob v).name = "notify:slack".toList :=
  congrArg ("notify:".toList ++ ·) id

/-- What is true of every capability job: its name is that of its capability, a cloud job finds its
    name free, and the hook job finds no other reports. -/
structure Standing (c : JobContext) (taken : List Text) (entry : Text × Job) : Prop where
  named : (entry.1, entry.2.name) ∈ stubNames
  free : entry.2.name = awsName → awsName ∉ taken
  quiet : entry.1 = "slack".toList → c.features.postActions = []

theorem stubbed_standing (c : JobContext) (taken : List Text) (v : Verdict) (j : Job)
    (stubbed : Stubbed c taken v j) : Standing c taken (v.id, j) := by
  cases stubbed with
  | plain j entry =>
    have name := plain_stub_name c v.id j entry
    have apart := plain_names_apart _ name
    exact ⟨List.mem_of_mem_take name, fun cloud => absurd cloud apart.1, fun chat => absurd chat apart.2⟩
  | cloud id free =>
    refine ⟨?_, fun _ => free, fun chat => ?_⟩
    · rcases id with id | id
      · exact List.mem_of_getElem? (i := 7) (id ▸ rfl)
      · exact List.mem_of_getElem? (i := 8) (id ▸ rfl)
    · have chat : v.id = "slack".toList := chat
      rcases id with id | id <;> exact absurd (id.symm.trans chat) (by decide)
  | hook id quiet =>
    have name := hook_job_name v id
    refine ⟨List.mem_of_getElem? (i := 9) (by rw [name, id]; rfl), fun cloud => ?_, fun _ => quiet⟩
    exact absurd (name.symm.trans cloud) (by decide)

theorem Standing.weaken {c : JobContext} {taken earlier : List Text} {entry : Text × Job}
    (standing : Standing c earlier entry) (wider : taken ⊆ earlier) : Standing c taken entry :=
  ⟨standing.named, fun cloud present => standing.free cloud (wider present), standing.quiet⟩

section Capability

variable (c : JobContext) (threshold : Float)

theorem capability_jobs_standing (taken : List Text) (verdicts : List Verdict) :
    ∀ entry ∈ capabilityJobsFrom c threshold taken verdicts, Standing c taken entry := by
  intro entry made
  obtain ⟨v, -, earlier, j, wider, stubbed, rfl⟩ := capability_job_inversion c threshold taken verdicts entry made
  have standing := stubbed_standing c earlier v j stubbed
  exact Standing.weaken ⟨standing.named, standing.free, standing.quiet⟩ wider

theorem capability_ids (taken : List Text) (verdicts : List Verdict) :
    ((capabilityJobsFrom c threshold taken verdicts).map (·.1)).Sublist (verdicts.map (·.id)) := by
  induction verdicts generalizing taken with
  | nil => exact .slnil
  | cons v rest ih =>
    unfold capabilityJobsFrom
    split
    · exact (ih taken).cons _
    · exact (ih _).cons_cons _

-- Two capability jobs with one name would stand for one verdict, or both be the cloud job, which
-- the later of them finds taken.
theorem capability_names_nodup (taken : List Text) (verdicts : List Verdict)
    (ids : (verdicts.map (·.id)).Nodup) :
    ((capabilityJobsFrom c threshold taken verdicts).map (·.2.name)).Nodup := by
  induction verdicts generalizing taken with
  | nil => exact List.nodup_nil
  | cons v rest ih =>
    obtain ⟨fresh, others⟩ := List.nodup_cons.1 ids
    unfold capabilityJobsFrom
    split
    · exact ih taken others
    · rename_i j made
      refine List.nodup_cons.2 ⟨fun again => ?_, ih _ others⟩
      obtain ⟨entry, member, same⟩ := List.mem_map.1 again
      have first := stubbed_standing c taken v j (stub_inversion c taken v j made)
      have second := capability_jobs_standing c threshold _ rest entry member
      rcases stub_names_shared _ first.named _ second.named same.symm with id | cloud
      · have later := (capability_ids c threshold _ rest).subset (List.mem_map_of_mem member)
        have id : v.id = entry.1 := id
        exact fresh (by simpa only [id] using later)
      · exact second.free (same.trans cloud) (cloud ▸ List.mem_cons_self)

end Capability

-- A capability job has no name of a core job: its name is neither fixed nor that of a parallel
-- stage, and the one that is like those of phases is there only when no phase has a job.
theorem capability_names_apart (c : JobContext) (taken : List Text) (entry : Text × Job)
    (standing : Standing c taken entry) : entry.2.name ∉ (coreJobs c).map (·.name) := by
  intro member
  have apart := stub_names_apart _ standing.named
  rw [((core_jobs_perm c).map _).mem_iff, List.map_append, List.map_append, List.mem_append,
    List.mem_append] at member
  rcases member with fixed | parallel | notify
  · exact apart.1 ((fixed_names_sublist c).subset fixed)
  · exact absurd (parallel_names_marked c _ parallel) (by simp [apart.2.1])
  · have quiet := standing.quiet (apart.2.2 (notify_names_marked _ _ notify))
    rw [quiet] at notify
    cases notify

theorem job_names_nodup (c : JobContext) (threshold : Float)
    (distinct : (c.features.postActions.map (·.1)).Nodup)
    (known : ∀ p ∈ c.features.postActions, p.1 ∈ PostPhase.known)
    (ids : (c.verdicts.map (·.id)).Nodup) : ((jobs c threshold).map (·.name)).Nodup := by
  unfold jobs
  rw [List.map_append]
  refine List.nodup_append'.2 ⟨core_names_nodup c distinct known, ?_, ?_⟩
  · rw [List.map_map]
    exact capability_names_nodup c threshold _ c.verdicts ids
  · intro n core capability
    obtain ⟨j, member, rfl⟩ := List.mem_map.1 capability
    obtain ⟨entry, made, rfl⟩ := List.mem_map.1 member
    exact capability_names_apart c _ entry (capability_jobs_standing c threshold _ _ entry made) core

theorem jobs_well_formed (features : FeatureSet) (verdicts : List Verdict) (tier : ComplexityTier)
    (expiry : Option Text) (threshold : Float) (distinct : (features.postActions.map (·.1)).Nodup)
    (known : ∀ p ∈ features.postActions, p.1 ∈ PostPhase.known) (ids : (verdicts.map (·.id)).Nodup) :
    WellFormed (selectStages tier verdicts)
      (jobs (JobContext.of features verdicts tier expiry) threshold) := by
  have placed := jobs_placed _ (JobContext.of_sound features verdicts tier expiry) threshold
  refine ⟨job_names_nodup _ threshold distinct known ids, fun j member => (placed j member).staged,
    fun j member => ?_, fun j member need wanted => ?_⟩
  · have active := (placed j member).active
    by_cases trigger : j.trigger = none
    · exact .inr fun empty => by simp [acts, trigger, empty] at active
    · exact .inl trigger
  · obtain ⟨rfl, before⟩ := (placed j member).needed need wanted
    exact ⟨buildJob _, List.mem_cons_self, rfl, before⟩

-- Slugs that run into numbered slugs, two cloud capabilities and two reporting phases.
def crowdedFeatures : FeatureSet :=
  { parallelStages := ["unit 2", "unit", "Unit", "unit-2"], matrix := [("os", ["linux", "mac"])]
    postActions := [(.success, [.slackNotification]), (.cleanup, [.emailNotification])] }

def crowdedVerdicts : List Verdict :=
  ["docker-workflow", "s3", "pipeline-aws", "slack"].map fun id =>
    { id := id.toList, tier := .native, note := [], hits := [], confidence := 1 }

theorem crowded_jobs_well_formed :
    ((crowdedFeatures.postActions.map (·.1)).Nodup ∧
      (∀ p ∈ crowdedFeatures.postActions, p.1 ∈ PostPhase.known) ∧
      (crowdedVerdicts.map (·.id)).Nodup) ∧
      WellFormed (selectStages .complex crowdedVerdicts)
        (jobs (JobContext.of crowdedFeatures crowdedVerdicts .complex none) 0.7) :=
  ⟨by decide, jobs_well_formed crowdedFeatures crowdedVerdicts .complex none 0.7
    (by decide) (by decide) (by decide)⟩

end PipelineMigration.Job
