import PipelineMigration.Proofs.Feature.Source
import PipelineMigration.Proofs.Keyed
import PipelineMigration.Proofs.Pattern.Slot
set_option autoImplicit false

/- The features of every script are well formed: what has a name has one that is not empty, nothing is listed twice,
   and no number is negative. Each kind of feature is read by patterns of its own. A name is filled where its slot can
   only hold something, and it comes once where features are kept under their names. -/
namespace PipelineMigration.Feature

section Parameters

theorem parameter_named {m : Match} {p : Parameter} (made : parameterOf? m = some p) : p.name ≠ [] := by
  unfold parameterOf? at made
  simp only [Option.bind_eq_bind, Option.bind_eq_some_iff] at made
  obtain ⟨name, -, kind, -, made⟩ := made
  split at made
  · cases made
  · rename_i filled
    rw [← Option.some.inj made]
    simpa using filled

theorem parameters_named (s : Text) : ∀ p ∈ parameters s, p.name ≠ [] := by
  intro p member
  obtain ⟨entry, kept, rfl⟩ := List.mem_map.1 member
  obtain ⟨q, made, rfl⟩ := List.mem_map.1 (Keyed.mem_of_mem_firstOfPairs kept)
  obtain ⟨m, -, made⟩ := List.mem_filterMap.1 made
  exact parameter_named made

theorem parameters_apart (s : Text) : ((parameters s).map (·.name)).Nodup := by
  rw [parameters, Keyed.firsts_keys]
  exact Keyed.nodup_distinct _

end Parameters

section Environment

theorem identifier_taken {before : Option Char} {taken rest : Text} {k : Pattern.Texts}
    (way : identifierPattern.Takes before taken rest k) : Text.isIdentifier taken = true := by
  obtain ⟨u, v, l, m, ⟨⟨c, start, rfl⟩, -⟩, ⟨⟨-, others⟩, -⟩, rfl, -⟩ := way
  simpa [Text.isIdentifier, start] using others

theorem assignments_identified (s : Text) : ∀ a ∈ assignments s, Text.isIdentifier a.1 = true := by
  intro a member
  obtain ⟨b, -, assigned⟩ := List.mem_flatMap.1 member
  obtain ⟨m, found, rfl⟩ := List.mem_map.1 assigned
  obtain ⟨u, v, -, -, same⟩ := Pattern.match_from_place none 0 0 b.body found
  have marked : assignmentLine.marks 1 = true := by decide
  obtain ⟨c, inside, before, rest, k, way⟩ := Pattern.captured_taken marked same
  obtain rfl : c = identifierPattern := List.mem_singleton.1 inside
  exact identifier_taken way

theorem listed_identified (s : Text) : ∀ a ∈ listedAssignments s, Text.isIdentifier a.1 = true := by
  intro a member
  obtain ⟨item, -, found⟩ := List.mem_filterMap.1 member
  exact (Option.filter_eq_some_iff.1 found).2

theorem environment_identified (s : Text) : ∀ e ∈ environment s, Text.isIdentifier e.1 = true := by
  intro e member
  rcases List.mem_append.1 (Keyed.mem_of_mem_firstOfPairs member) with literal | listed
  · obtain ⟨a, assigned, made⟩ := List.mem_filterMap.1 literal
    dsimp only at made
    split at made
    · cases made
    · obtain ⟨value, -, rfl⟩ := Option.map_eq_some_iff.1 made
      exact assignments_identified s a assigned
  · exact listed_identified s e listed

theorem rough_identified (s : Text) : ∀ e ∈ roughEnvironment s, Text.isIdentifier e.1 = true := by
  intro e member
  obtain ⟨a, assigned, rfl⟩ := List.mem_map.1 (Keyed.mem_of_mem_firstOfPairs member)
  exact assignments_identified s a (List.mem_filter.1 assigned).1

end Environment

section Matrix

theorem axis_filled {body : Text} {axis : Text × List Text} (found : axis? body = some axis) :
    axis.1 ≠ [] ∧ axis.2 ≠ [] ∧ ∀ v ∈ axis.2, v ≠ [] := by
  unfold axis? at found
  simp only [Option.bind_eq_bind, Option.bind_eq_some_iff] at found
  obtain ⟨name, named, values, -, found⟩ := found
  split at found
  · cases found
  · rename_i filled
    rw [← Option.some.inj found]
    refine ⟨Pattern.first_match_filled (by decide) named, by simpa using filled, fun v member => ?_⟩
    simpa using (List.mem_filter.1 member).2

theorem matrix_filled (s : Text) : ∀ axis ∈ matrix s, axis.1 ≠ [] ∧ axis.2 ≠ [] ∧ ∀ v ∈ axis.2, v ≠ [] := by
  intro axis member
  obtain ⟨b, -, inside⟩ := List.mem_flatMap.1 (Keyed.mem_of_mem_firstOfPairs member)
  obtain ⟨a, -, found⟩ := List.mem_filterMap.1 inside
  exact axis_filled found

end Matrix

section PostActions

theorem actions_apart (body : Text) : (actionsIn body).Nodup := by
  have apart : (postSteps.map (·.2)).Nodup := by decide
  refine (List.pairwise_map.1 apart).filterMap _ ?_
  intro a b other x first y second
  dsimp only at first second
  split at first
  · split at second
    · rwa [← Option.some.inj first, ← Option.some.inj second]
    · cases second
  · cases first

theorem add_actions_filled {phases : List (PostPhase × List PostAction)} {phase : PostPhase} {actions : List PostAction}
    (held : ∀ p ∈ phases, p.2 ≠ [] ∧ p.2.Nodup) (filled : actions ≠ []) (apart : actions.Nodup) :
    ∀ p ∈ addActions phases phase actions, p.2 ≠ [] ∧ p.2.Nodup := by
  intro p member
  rcases Keyed.mem_put member with rfl | before
  · cases found : Keyed.get? phase phases with
    | none => simpa using ⟨filled, apart⟩
    | some tags =>
      obtain ⟨some, once⟩ := held _ (Keyed.mem_of_get? found)
      -- The actions that are held stay in front, and what is added is none of them.
      refine ⟨List.append_ne_nil_of_left_ne_nil some _, List.nodup_append.2 ⟨once, apart.filter _, ?_⟩⟩
      rintro a old b new rfl
      have absent : a ∉ tags := by simpa [found] using (List.mem_filter.1 new).2
      exact absent old
  · exact held p before

theorem post_actions_filled (s : Text) : ∀ p ∈ postActions s, p.2 ≠ [] ∧ p.2.Nodup := by
  refine List.foldlRecOn (motive := fun phases : List (PostPhase × List PostAction) =>
    ∀ p ∈ phases, p.2 ≠ [] ∧ p.2.Nodup) _ _ (List.forall_mem_nil _) ?_
  -- One block keeps the lists that are held filled and without repetition.
  intro phases held block _
  dsimp only
  split
  · exact held
  · rename_i filled
    exact add_actions_filled held (by simpa using filled) (actions_apart _)

end PostActions

section Names

theorem stages_named (s : Text) : ∀ name ∈ stageNames s, name ≠ [] := by
  intro name member
  obtain ⟨m, found, rfl⟩ := List.mem_map.1 (Keyed.mem_distinct.1 member)
  exact Pattern.all_matches_filled (by decide) found

theorem direct_stages_named (body : Text) : ∀ name ∈ directStages body, name ≠ [] := by
  intro name member
  obtain ⟨m, found, rfl⟩ := List.mem_map.1 member
  exact Pattern.all_matches_filled (by decide) (List.mem_filter.1 found).1

theorem branches_named (s : Text) : ∀ name ∈ branchNames s, name ≠ [] := by
  have first {s : Text} {m : Match} (found : branchEntry.matchStart s = some m) : m.captured 1 ≠ [] :=
    Pattern.captured_filled (by decide) found
  -- On the entries that follow one another, each after the body of the one before.
  fun_induction branchNames s with
  | case1 s none => exact fun _ none => nomatch none
  | case2 s m found body opened => exact List.forall_mem_singleton.2 (first found)
  | case3 s m found body n closed rest ih =>
    refine List.forall_mem_cons.2 ⟨first found, ?_⟩
    split
    · rename_i shorter
      exact ih shorter
    · exact fun _ none => nomatch none

theorem parallel_stages_named (s : Text) : ∀ name ∈ parallelStages s, name ≠ [] := by
  intro name member
  rcases List.mem_append.1 (Keyed.mem_distinct.1 member) with direct | branch
  · obtain ⟨b, -, direct⟩ := List.mem_flatMap.1 direct
    exact direct_stages_named b.body name direct
  · obtain ⟨m, -, branch⟩ := List.mem_flatMap.1 branch
    exact branches_named _ name branch

theorem libraries_named (s : Text) : ∀ name ∈ libraries s, name ≠ [] := by
  intro name member
  rcases List.mem_append.1 (Keyed.mem_distinct.1 member) with called | stepped
  · obtain ⟨m, -, quoted⟩ := List.mem_flatMap.1 called
    simpa using (List.mem_filter.1 quoted).2
  · obtain ⟨m, found, rfl⟩ := List.mem_map.1 stepped
    exact Pattern.all_matches_filled (by decide) found

end Names

section Bindings

theorem binding_named {m : Match} {b : CredentialBinding} (made : bindingOf? m = some b) : b.sourceId ≠ [] := by
  unfold bindingOf? at made
  simp only [Option.bind_eq_bind, Option.bind_eq_some_iff] at made
  obtain ⟨id, -, form, -, made⟩ := made
  split at made
  · cases made
  · rename_i filled
    rw [← Option.some.inj made]
    simpa using filled

theorem looked_up_named {raw id : Text} (found : lookedUp? raw = some id) : id ≠ [] := by
  obtain ⟨m, called, rfl⟩ := Option.map_eq_some_iff.1 found
  exact Pattern.captured_filled (by decide) called

theorem bindings_named (s : Text) : ∀ b ∈ credentialBindings s ++ environmentBindings s, b.sourceId ≠ [] := by
  intro b member
  rcases List.mem_append.1 member with typed | assigned
  · obtain ⟨m, -, made⟩ := List.mem_filterMap.1 typed
    exact binding_named made
  · obtain ⟨a, -, made⟩ := List.mem_filterMap.1 assigned
    obtain ⟨id, found, rfl⟩ := Option.map_eq_some_iff.1 made
    exact looked_up_named found

end Bindings

end PipelineMigration.Feature

namespace PipelineMigration

open Outcome (bind_ok)

/-- What all parts of a feature set keep to. -/
structure FeatureSet.WellFormed (f : FeatureSet) : Prop extends FeatureSet.Sound f where
  parameters : (f.parameters.map (·.name)).Nodup ∧ ∀ p ∈ f.parameters, p.name ≠ []
  environment : (f.environment.map (·.1)).Nodup ∧ ∀ e ∈ f.environment, Text.isIdentifier e.1 = true
  axes : (f.matrix.map (·.1)).Nodup ∧ ∀ axis ∈ f.matrix, axis.1 ≠ [] ∧ axis.2 ≠ [] ∧ ∀ v ∈ axis.2, v ≠ []
  actions : ∀ p ∈ f.postActions, p.2 ≠ [] ∧ p.2.Nodup
  stages : f.stageNames.Nodup ∧ ∀ name ∈ f.stageNames, name ≠ []
  parallel : f.parallelStages.Nodup ∧ ∀ name ∈ f.parallelStages, name ≠ []
  libraries : f.libraries.Nodup ∧ ∀ name ∈ f.libraries, name ≠ []
  bindings : f.credentialBindings.Nodup ∧ ∀ b ∈ f.credentialBindings, b.sourceId ≠ []
  counts : 0 ≤ f.retention.numToKeep ∧ 0 ≤ f.retention.artifactNumToKeep

theorem FeatureSet.of_source_well_formed {s : Text} {f : FeatureSet} (read : ofSource s = .ok f) : f.WellFormed := by
  have sound := of_source_sound read
  obtain ⟨minutes, -, read⟩ := bind_ok read
  obtain ⟨count, -, read⟩ := bind_ok read
  obtain ⟨retention, kept, read⟩ := bind_ok read
  obtain ⟨-, runs, -, artifacts⟩ :=
    Feature.retention_all (Int.le_refl 0) (fun _ n _ => Int.le_max_right n 0) kept
  obtain rfl := Except.ok.inj read
  exact {
    toSound := sound
    parameters := ⟨Feature.parameters_apart s, Feature.parameters_named s⟩
    environment := ⟨Keyed.nodup_keys_firstOfPairs, Feature.environment_identified s⟩
    axes := ⟨Keyed.nodup_keys_firstOfPairs, Feature.matrix_filled s⟩
    actions := Feature.post_actions_filled s
    stages := ⟨Keyed.nodup_distinct _, Feature.stages_named s⟩
    parallel := ⟨Keyed.nodup_distinct _, Feature.parallel_stages_named s⟩
    libraries := ⟨Keyed.nodup_distinct _, Feature.libraries_named s⟩
    bindings := ⟨Keyed.nodup_distinct _, fun b member => Feature.bindings_named s b (Keyed.mem_distinct.1 member)⟩
    counts := ⟨runs, artifacts⟩ }

theorem FeatureSet.WellFormed.with_environment {f : FeatureSet} (well : f.WellFormed) {entries : List (Text × Text)}
    (apart : (entries.map (·.1)).Nodup) (identified : ∀ e ∈ entries, Text.isIdentifier e.1 = true) :
    FeatureSet.WellFormed { f with environment := entries } where
  toSound := ⟨well.distinct, well.known, well.timeout, well.retry, well.kept⟩
  parameters := well.parameters
  environment := ⟨apart, identified⟩
  axes := well.axes
  actions := well.actions
  stages := well.stages
  parallel := well.parallel
  libraries := well.libraries
  bindings := well.bindings
  counts := well.counts

/-- The features of every script are well formed. The second scan adds nothing to them but environment entries under
    keys that are new. -/
theorem Extraction.of_well_formed {excluded : List Text} {script : Text} {e : Extraction}
    (read : Extraction.of excluded script = .ok e) : e.features.WellFormed ∧
    ∃ f, FeatureSet.ofSource (Script.stripComments script) = .ok f ∧
      (e.method = .primary → e.features = f) ∧
      (e.method = .fallback → e.features = { f with
        environment := f.environment ++ (Feature.roughEnvironment (Script.stripComments script)).filter fun a =>
          !Keyed.has a.1 f.environment }) := by
  obtain ⟨f, source, read⟩ := bind_ok read
  have well := FeatureSet.of_source_well_formed source
  split at read
  · obtain rfl := Except.ok.inj read
    exact ⟨well, f, source, fun _ => rfl, fun other => nomatch other⟩
  · obtain rfl := Except.ok.inj read
    obtain ⟨apart, identified⟩ := well.environment
    have merged := Keyed.firsts_append apart
      (Keyed.nodup_keys_firstOfPairs : ((Feature.roughEnvironment (Script.stripComments script)).map (·.1)).Nodup)
    refine ⟨well.with_environment Keyed.nodup_keys_firstOfPairs ?_, f, source, (fun other => nomatch other), fun _ => ?_⟩
    · intro entry member
      rcases List.mem_append.1 (Keyed.mem_of_mem_firstOfPairs member) with first | added
      · exact identified entry first
      · exact Feature.rough_identified _ entry added
    · exact congrArg (fun entries => { f with environment := entries }) merged

/-- A stage outside any root, after an environment whose second value has no quotes. -/
def rootless : Text :=
  "environment \x7b\n  A = 'x'\n  B = y\n\x7d\nstage('Build') \x7b\n  string(name: 'P')\n\x7d\n"

theorem rootless_well_formed : ∃ e, Extraction.of [] rootless = .ok e ∧ e.method = .fallback ∧ e.features.WellFormed ∧
    e.features.environment = [("A".toList, "x".toList), ("B".toList, "y".toList)] ∧
    e.features.stageNames = ["Build".toList] := by
  have done : (Extraction.of [] rootless).toOption.isSome = true := by decide +kernel
  obtain ⟨e, read⟩ := Outcome.done_of_isSome done
  have found : (Extraction.of [] rootless).toOption.map (fun e => (e.method, e.features.environment, e.features.stageNames)) =
      some (.fallback, [("A".toList, "x".toList), ("B".toList, "y".toList)], ["Build".toList]) := by decide +kernel
  rw [read] at found
  simp only [Except.toOption, Option.map_some, Option.some.injEq, Prod.mk.injEq] at found
  obtain ⟨method, environment, stages⟩ := found
  exact ⟨e, read, method, (Extraction.of_well_formed read).1, environment, stages⟩

end PipelineMigration
