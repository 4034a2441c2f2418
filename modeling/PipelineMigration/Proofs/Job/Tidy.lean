import PipelineMigration.Proofs.Job.Graph
import PipelineMigration.Proofs.Job.Reading
set_option autoImplicit false

/- Every job of a pipeline is tidy: what it writes as plain scalars are fixed words and a number of days, and what
   it takes from the script is quoted or made an identifier. -/
namespace PipelineMigration.Job

open Yaml

section Artifacts

theorem shown_nothing : Shown [] .done := ⟨draws_done 4, rfl, silent_done, short_done⟩

theorem Shown.append {first second : List Text} {a b : Block} (here : Shown first a) (there : Shown second b) :
    Shown (first ++ second) (a ++ b) := by
  refine ⟨?_, ?_, silent_append here.silent there.silent, (short_append a b).2 ⟨here.short, there.short⟩⟩
  · rw [List.map_append]
    exact here.drawn.append there.drawn
  · rw [has_entry_append, here.filled, there.filled]
    cases first with
    | nil => rfl
    | cons line rest => rfl

theorem shown_plain (key : String) (identifier : Text.isIdentifier key.toList = true)
    (short : (bareKey key).isShort = true) {s : Text} (plain : PlainLeaf s) :
    Shown [key.toList ++ ':' :: ' ' :: s] (plainLeaf key s) :=
  ⟨draws_plain_leaf key identifier plain 4, rfl, ⟨rfl, rfl⟩, List.forall_mem_singleton.2 short⟩

theorem shown_paths (paths : List Text) (filled : paths ≠ []) (plain : ∀ p ∈ paths, isLeafWord p = true) :
    Shown ("paths:".toList :: paths.map indentedPath) (.words (bareKey "paths") (paths.map .plain) .done) := by
  have items : paths.map Written.plain ≠ [] := by simpa using filled
  have drawn := @draws_words 4 _ (bare_key_fits "paths" (by decide)) _ items (plain_words_sound plain)
  have silent : (paths.map Written.plain).flatMap Written.singles = [] := by
    rw [List.flatMap_eq_nil_iff]
    intro w member
    obtain ⟨p, -, rfl⟩ := List.mem_map.1 member
    rfl
  refine ⟨?_, rfl, ⟨rfl, ?_⟩, List.forall_mem_singleton.2 (by decide)⟩
  · rw [List.map_map] at drawn
    rw [List.map_cons, List.map_map]
    exact drawn
  · rw [Block.singles, silent]
    rfl

theorem shown_section (key : String) (identifier : Text.isIdentifier key.toList = true)
    (short : (bareKey key).isShort = true) {lines : List Text} {b : Block} (filled : b.hasEntry = true)
    (drawn : Draws b 6 (lines.map ("    ".toList ++ ·))) (silent : b.Silent) (shorts : b.Short) :
    Shown ((key.toList ++ [':']) :: lines) (.nested (bareKey key) b .done) := by
  refine ⟨?_, rfl, ⟨?_, ?_⟩, ?_⟩
  · exact draws_nested (bare_key_fits key identifier) filled drawn
  · rw [Block.remarks, silent.1]
    rfl
  · rw [Block.singles, silent.2]
    rfl
  · change ∀ k ∈ bareKey key :: b.keys ++ [], _
    rw [List.append_nil]
    exact List.forall_mem_cons.2 ⟨short, shorts⟩

theorem tool_paths : ∀ tool ∈ BuildTool.all, ∀ p ∈ tool.artifactPaths, isLeafWord p = true := by decide

theorem week_plain : PlainLeaf "1 week".toList :=
  plain_leaf_count 1 " week" (by decide) (.more (w := ['1']) (t := "week".toList) (by decide) (.word (by decide)))
    (by decide)

theorem build_artifacts_shown {c : JobContext} (sound : c.Sound) (expiry : ∀ e ∈ c.expiry, PlainLeaf e) :
    ∃ art, Shown (buildArtifacts c) art := by
  have paths : ∀ p ∈ (if c.tool.artifactPaths.isEmpty && c.has "archive-artifacts" then ["build/".toList]
      else c.tool.artifactPaths), isLeafWord p = true := by
    split
    · decide
    · exact tool_paths _ sound.tool
  unfold buildArtifacts
  dsimp only
  generalize (if c.tool.artifactPaths.isEmpty && c.has "archive-artifacts" then ["build/".toList]
      else c.tool.artifactPaths) = places at paths ⊢
  cases places with
  | nil => exact ⟨.done, shown_nothing⟩
  | cons p rest =>
    have kept : PlainLeaf (c.expiry.getD "1 week".toList) := by
      cases said : c.expiry with
      | none => exact week_plain
      | some e => exact expiry e said
    exact ⟨_, (shown_paths (p :: rest) (List.cons_ne_nil p rest) paths).append
      (shown_plain "expire_in" (by decide) (by decide) kept)⟩

/-- The block of the reports that the test job collects. -/
def reportBlock (c : JobContext) : Block :=
  (if c.has "junit" || c.hasAction .junitReport
    then .leaf (bareKey "junit") (.scalar (.double c.tool.junitPath)) .done else .done) ++
  if c.has "cobertura" || c.has "jacoco" then
    .nested (bareKey "coverage_report") (plainLeaf "coverage_format" "cobertura" ++
      .leaf (bareKey "path") (.scalar (.double "coverage/cobertura-coverage.xml")) .done) .done
  else .done

theorem draws_reports (c : JobContext) : Draws (reportBlock c) 6 ((testReports c).map ("    ".toList ++ ·)) := by
  unfold reportBlock testReports
  rw [List.map_append]
  refine Draws.append ?_ ?_
  · split
    · exact draws_double (bare_key_fits "junit" (by decide)) c.tool.junitPath
    · exact draws_done 6
  · split
    · exact draws_nested (bare_key_fits "coverage_report" (by decide)) rfl
        ((draws_plain_leaf "coverage_format" (by decide) (plain_leaf_word (by decide)) 8).append
          (draws_double (bare_key_fits "path" (by decide)) "coverage/cobertura-coverage.xml".toList))
    · exact draws_done 6

theorem reports_filled (c : JobContext) : (reportBlock c).hasEntry = !(testReports c).isEmpty := by
  unfold reportBlock testReports
  rw [has_entry_append]
  split
  · rfl
  · split
    · rfl
    · rfl

theorem reports_silent (c : JobContext) : (reportBlock c).Silent ∧ (reportBlock c).Short := by
  have fixed : ∀ k ∈ [bareKey "coverage_report", bareKey "coverage_format", bareKey "path"], k.isShort = true := by
    decide
  unfold reportBlock
  rw [short_append]
  refine ⟨silent_append ?_ ?_, ?_, ?_⟩
  · split
    · exact ⟨rfl, rfl⟩
    · exact silent_done
  · split
    · exact ⟨rfl, rfl⟩
    · exact silent_done
  · split
    · exact List.forall_mem_singleton.2 (by decide)
    · exact short_done
  · split
    · exact fixed
    · exact short_done

theorem test_artifacts_shown (c : JobContext) : ∃ art, Shown (testJob c).artifacts art := by
  have drawn := draws_reports c
  have filled := reports_filled c
  obtain ⟨silent, short⟩ := reports_silent c
  unfold testJob
  dsimp only
  cases reports : testReports c with
  | nil => exact ⟨.done, shown_nothing⟩
  | cons line rest =>
    rw [reports] at drawn filled
    exact ⟨_, (shown_plain "when" (by decide) (by decide) (plain_leaf_word (by decide))).append
      (shown_section "reports" (by decide) (by decide) filled drawn silent short)⟩

theorem terraform_artifacts_shown (c : JobContext) : ∃ art, Shown (terraformJob c).artifacts art :=
  ⟨_, shown_paths ["plan.tfplan".toList] (List.cons_ne_nil _ _) (by decide)⟩

theorem cypress_artifacts_shown (c : JobContext) : ∃ art, Shown (cypressJob c).artifacts art :=
  ⟨_, (shown_plain "when" (by decide) (by decide) (plain_leaf_word (by decide))).append
    (shown_paths ["cypress/screenshots/".toList, "cypress/videos/".toList] (List.cons_ne_nil _ _) (by decide))⟩

end Artifacts

def stageWords : List Text := ["prepare", "build", "test", "quality", "package", "deploy", "cleanup", postStage]

theorem stage_words_plain : ∀ s ∈ stageWords, isLeafWord s = true ∧ Tag.ofPlain s = .text := by decide

theorem stage_lists_known : ∀ packaged, ∀ stages ∈ stageLists packaged, ∀ s ∈ stages, s ∈ stageWords := by
  decide

theorem placed_stage_known {c : JobContext} (sound : c.Sound) {j : Job} (placed : Placed c.stages j) :
    j.stage ∈ stageWords := by
  rcases placed.staged with inside | last
  · exact stage_lists_known _ _ sound.stages _ inside
  · rw [last]
    decide

/-- What is left to say of a job that has its place: its words, names and artifacts. -/
structure Neat (j : Job) : Prop where
  words : ∀ w ∈ j.settingWords, isLeafWord w = true
  names : ∀ n ∈ j.variableNames, Text.isIdentifier n = true
  artifacts : ∃ art, Shown j.artifacts art

theorem Neat.tidy {c : JobContext} (sound : c.Sound) {j : Job} (placed : Placed c.stages j) (neat : Neat j) :
    ∃ art, j.Tidy art := by
  obtain ⟨art, shown⟩ := neat.artifacts
  exact ⟨art, (stage_words_plain _ (placed_stage_known sound placed)).1,
    neat.words, neat.names, shown⟩

section Core

variable {c : JobContext}

theorem build_job_neat (sound : c.Sound) (expiry : ∀ e ∈ c.expiry, PlainLeaf e) : Neat (buildJob c) :=
  ⟨(fun _ none => nomatch none), (fun _ none => nomatch none), build_artifacts_shown sound expiry⟩

theorem test_job_neat : Neat (testJob c) :=
  ⟨(fun _ none => nomatch none), (fun _ none => nomatch none), test_artifacts_shown c⟩

theorem matrix_jobs_neat : ∀ j ∈ matrixJobs c, Neat j := by
  intro j member
  unfold matrixJobs at member
  split at member
  · cases member
  · obtain rfl := List.mem_singleton.1 member
    refine ⟨(fun _ none => nomatch none), fun n named => ?_, .done, shown_nothing⟩
    obtain ⟨axis, among, rfl⟩ := List.mem_map.1 named
    obtain ⟨source, -, rfl⟩ := List.mem_map.1 among
    exact variable_name_identifier source.1

theorem parallel_jobs_neat : ∀ j ∈ parallelJobs c, Neat j := by
  intro j member
  obtain ⟨i, bound, rfl⟩ := List.getElem_of_mem member
  rw [show (parallelJobs c)[i] = parallelJob _ _ from List.getElem_zipWith]
  exact ⟨(fun _ none => nomatch none), (fun _ none => nomatch none), .done, shown_nothing⟩

theorem deploy_job_neat : Neat (deployJob c) := by
  have manual : ∀ w ∈ manual? c, isLeafWord w = true := by
    unfold manual?
    split
    · decide
    · exact fun _ none => nomatch none
  have rules : ∀ r ∈ deployRules c, ∀ w ∈ r.when_, isLeafWord w = true := by
    intro r member
    unfold deployRules at member
    dsimp only at member
    split at member
    · rw [List.mem_singleton.1 member]
      exact manual
    · obtain ⟨g, -, made⟩ := List.mem_filterMap.1 member
      obtain ⟨condition, -, rfl⟩ := Option.map_eq_some_iff.1 made
      exact manual
  refine ⟨fun w member => ?_, (fun _ none => nomatch none), .done, shown_nothing⟩
  have group : ∀ w ∈ (deployJob c).resourceGroup, isLeafWord w = true := by
    unfold deployJob
    dsimp only
    split
    · decide
    · exact fun _ none => nomatch none
  have parts : w ∈ ["staging".toList] ++ ((deployJob c).resourceGroup.toList ++
    (deployRules c).flatMap (·.when_.toList)) := member
  rcases List.mem_append.1 parts with environment | rest
  · rw [List.mem_singleton.1 environment]
    decide
  · rcases List.mem_append.1 rest with locked | ruled
    · exact group w (Option.mem_toList.1 locked)
    · obtain ⟨r, among, said⟩ := List.mem_flatMap.1 ruled
      exact rules r among w (Option.mem_toList.1 said)

theorem notify_job_neat (phase : PostPhase) (actions : List PostAction) (j : Job)
    (made : notifyJob? phase actions = some j) : Neat j := by
  unfold notifyJob? at made
  dsimp only at made
  split at made
  · cases made
  · have same := Option.some.inj made
    rw [← same]
    refine ⟨fun w member => ?_, (fun _ none => nomatch none), .done, shown_nothing⟩
    have parts : w ∈ [curlImage.name, phaseWhen phase] := member
    have timed : isLeafWord (phaseWhen phase) = true := by
      unfold phaseWhen
      split <;> decide
    rcases List.mem_cons.1 parts with image | occasion
    · rw [image]
      decide
    · rw [List.mem_singleton.1 occasion]
      exact timed

theorem cleanup_jobs_neat : ∀ j ∈ cleanupJobs c, Neat j := by
  intro j member
  unfold cleanupJobs at member
  split at member
  · rw [List.mem_singleton.1 member]
    refine ⟨fun w said => ?_, fun n named => ?_, .done, shown_nothing⟩
    · have same : w ∈ ["always".toList] := said
      rw [List.mem_singleton.1 same]
      decide
    · have same : n ∈ ["GIT_STRATEGY".toList] := named
      rw [List.mem_singleton.1 same]
      decide
  · cases member

theorem core_jobs_neat (sound : c.Sound) (expiry : ∀ e ∈ c.expiry, PlainLeaf e) : ∀ j ∈ coreJobs c, Neat j := by
  intro j member
  simp only [coreJobs, postJobs, List.cons_append, List.mem_cons, List.mem_append, List.mem_filterMap] at member
  rcases member with rfl | rfl | ((matrix | parallel) | deploy) | ⟨action, -, made⟩ | cleanup
  · exact build_job_neat sound expiry
  · exact test_job_neat
  · exact matrix_jobs_neat j matrix
  · exact parallel_jobs_neat j parallel
  · split at deploy
    · rw [List.mem_singleton.1 deploy]
      exact deploy_job_neat
    · cases deploy
  · exact notify_job_neat _ _ _ made
  · exact cleanup_jobs_neat j cleanup

end Core

section Capability

variable (c : JobContext)

theorem plain_stub_words : ∀ p ∈ plainStubs c, ∀ w ∈ p.2.settingWords, isLeafWord w = true := by
  have words : (plainStubs c).flatMap (·.2.settingWords) =
      ["docker:24.0.7".toList, "docker:24.0.7-dind".toList, "sonarsource/sonar-scanner-cli:5.0".toList,
        "bitnami/kubectl:1.29".toList, "staging".toList, "manual".toList, "hashicorp/terraform:1.7".toList,
        "python:3.12-slim".toList, "manual".toList, "group/downstream-project".toList,
        "cypress/included:13.6.4".toList] := rfl
  have known : ∀ w ∈ (plainStubs c).flatMap (·.2.settingWords), isLeafWord w = true := by
    rw [words]
    decide
  exact fun p member w said => known w (List.mem_flatMap.2 ⟨p, member, said⟩)

theorem plain_stub_names : ∀ p ∈ plainStubs c, ∀ n ∈ p.2.variableNames, Text.isIdentifier n = true := by
  have names : (plainStubs c).flatMap (·.2.variableNames) =
      ["DOCKER_TLS_CERTDIR".toList, "SONAR_USER_HOME".toList, "GIT_DEPTH".toList] := rfl
  have known : ∀ n ∈ (plainStubs c).flatMap (·.2.variableNames), Text.isIdentifier n = true := by
    rw [names]
    decide
  exact fun p member n named => known n (List.mem_flatMap.2 ⟨p, member, named⟩)

theorem plain_stub_artifacts : ∀ p ∈ plainStubs c, ∃ art, Shown p.2.artifacts art := by
  have nothing : ∃ art, Shown [] art := ⟨.done, shown_nothing⟩
  simp only [plainStubs, List.forall_mem_cons]
  exact ⟨nothing, nothing, nothing, terraform_artifacts_shown c, nothing, nothing, cypress_artifacts_shown c,
    List.forall_mem_nil _⟩

theorem stubbed_neat (taken : List Text) (v : Verdict) (j : Job) (stubbed : Stubbed c taken v j) : Neat j := by
  cases stubbed with
  | plain j entry =>
    exact ⟨plain_stub_words c _ entry, plain_stub_names c _ entry, plain_stub_artifacts c _ entry⟩
  | cloud id free =>
    have words : ∀ w ∈ ["amazon/aws-cli:2.15.0".toList, "manual".toList], isLeafWord w = true := by decide
    exact ⟨words, (fun _ none => nomatch none), .done, shown_nothing⟩
  | hook id quiet =>
    have words : ∀ w ∈ [curlImage.name, "always".toList], isLeafWord w = true := by decide
    exact ⟨words, (fun _ none => nomatch none), .done, shown_nothing⟩

theorem capability_jobs_neat (threshold : Float) : ∀ entry ∈ capabilityJobs c threshold, Neat entry.2 := by
  intro entry made
  obtain ⟨v, -, earlier, j, -, stubbed, rfl⟩ := capability_job_inversion c threshold _ _ entry made
  have neat := stubbed_neat c earlier v j stubbed
  exact ⟨neat.words, neat.names, neat.artifacts⟩

end Capability

theorem jobs_neat {c : JobContext} (sound : c.Sound) (expiry : ∀ e ∈ c.expiry, PlainLeaf e) (threshold : Float) :
    ∀ j ∈ jobs c threshold, Neat j := by
  intro j member
  rcases List.mem_append.1 member with core | capability
  · exact core_jobs_neat sound expiry j core
  · obtain ⟨entry, made, rfl⟩ := List.mem_map.1 capability
    exact capability_jobs_neat c threshold entry made

theorem jobs_tidy {c : JobContext} (sound : c.Sound) (expiry : ∀ e ∈ c.expiry, PlainLeaf e) (threshold : Float) :
    ∀ j ∈ jobs c threshold, ∃ art, j.Tidy art := fun j member =>
  (jobs_neat sound expiry threshold j member).tidy sound (jobs_placed c sound threshold j member)

section Names

theorem fixed_names_open : ∀ n ∈ fixedNames ++ stubNames.map (·.2), Lint.isJobName n = true := by decide

theorem marked_name_open (mark n : Text) (known : mark ∈ [parallelMark, notifyMark])
    (begins : mark.isPrefixOf n = true) : Lint.isJobName n = true := by
  have none : ∀ m ∈ [parallelMark, notifyMark], ∀ r ∈ Lint.reserved, m.isPrefixOf r = false := by decide
  have free : n ∉ Lint.reserved := fun member => by
    have other := none mark known n member
    rw [begins] at other
    cases other
  have shown : n.head? ≠ some '.' := by
    obtain ⟨rest, rfl⟩ := List.isPrefixOf_iff_prefix.1 begins
    simp only [List.mem_cons, List.not_mem_nil, or_false] at known
    rcases known with rfl | rfl
    · exact fun same => absurd (Option.some.inj same) (by decide)
    · exact fun same => absurd (Option.some.inj same) (by decide)
  simp [Lint.isJobName, free, shown]

theorem job_names_open (c : JobContext) (threshold : Float) :
    ∀ j ∈ jobs c threshold, Lint.isJobName j.name = true := by
  intro j member
  rcases List.mem_append.1 member with core | capability
  · have named : j.name ∈ (fixedJobs c ++ (parallelJobs c ++ notifyJobs c.features.postActions)).map (·.name) :=
      List.mem_map_of_mem ((core_jobs_perm c).mem_iff.1 core)
    rw [List.map_append, List.map_append, List.mem_append, List.mem_append] at named
    rcases named with fixed | parallel | notify
    · exact fixed_names_open _ (List.mem_append_left _ ((fixed_names_sublist c).subset fixed))
    · exact marked_name_open parallelMark _ (by decide) (parallel_names_marked c _ parallel)
    · exact marked_name_open notifyMark _ (by decide) (notify_names_marked _ _ notify)
  · obtain ⟨entry, made, rfl⟩ := List.mem_map.1 capability
    have standing := capability_jobs_standing c threshold _ _ entry made
    exact fixed_names_open _ (List.mem_append_right _ (List.mem_map_of_mem (f := fun p => p.2) standing.named))

end Names

end PipelineMigration.Job
