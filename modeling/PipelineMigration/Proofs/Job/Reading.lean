import Mathlib.Tactic.Tauto
import PipelineMigration.Proofs.Configuration.Lint
import PipelineMigration.Proofs.Job.Drawing
set_option autoImplicit false

/- What is read from the lines of a job: its comments, the conditions of its rules and its keys, and a body that
   says where it runs, what it does and what it needs. -/
namespace PipelineMigration.Job

open Yaml

section Silent

theorem silent_image (image : Option JobImage) : (imageBlock image).Silent := by
  cases image with
  | none => exact silent_done
  | some i =>
    unfold imageBlock
    dsimp only
    split
    · exact ⟨rfl, rfl⟩
    · exact ⟨rfl, rfl⟩

theorem silent_words (key : String) (items : List Written) (each : ∀ w ∈ items, w.singles = []) :
    (wordsBlock key items).Silent := by
  unfold wordsBlock
  split
  · exact silent_done
  · refine ⟨rfl, ?_⟩
    rw [Block.singles, List.flatMap_eq_nil_iff.2 each]
    rfl

theorem silent_variables (assignments : List (Text × Text)) : (variableBlock assignments).Silent := by
  unfold variableBlock
  split
  · exact silent_done
  · refine silent_nested (silent_fields _ fun f member => ?_)
    obtain ⟨a, -, rfl⟩ := List.mem_map.1 member
    rfl

theorem silent_needs (needs : Option (List Text)) : (needsBlock needs).Silent := by
  cases needs with
  | none => exact silent_done
  | some names => exact ⟨rfl, rfl⟩

theorem silent_matrix (axes : List (Text × List Text)) : (matrixBlock axes).Silent := by
  cases axes with
  | nil => exact silent_done
  | cons first rest =>
    have none : ∀ f ∈ axisField first :: rest.map axisField, f.2.singles = [] := by
      intro f member
      rcases List.mem_cons.1 member with rfl | later
      · rfl
      · obtain ⟨axis, -, rfl⟩ := List.mem_map.1 later
        rfl
    refine ⟨rfl, ?_⟩
    change ([⟨axisField first, rest.map axisField⟩] : List Record).flatMap _ ++ [] ++ [] = _
    rw [List.flatMap_singleton, List.flatMap_eq_nil_iff.2 none]
    rfl

theorem silent_commands (commands : List Text) : ∀ w ∈ commands.map Written.double, w.singles = [] := by
  intro w member
  obtain ⟨s, -, rfl⟩ := List.mem_map.1 member
  rfl

theorem silent_action (j : Job) : (actionBlock j).Silent := by
  unfold actionBlock
  cases j.trigger with
  | some project => exact ⟨rfl, rfl⟩
  | none =>
    refine silent_append (silent_words _ _ (silent_commands j.beforeScript)) ⟨rfl, ?_⟩
    rw [Block.singles, List.flatMap_eq_nil_iff.2 (silent_commands j.scriptLines)]
    rfl

theorem silent_setting (key : String) (value : Option Text) : (settingBlock key value).Silent := by
  cases value with
  | none => exact silent_done
  | some s => exact ⟨rfl, rfl⟩

theorem silent_artifacts {art : Block} (silent : art.Silent) : (artifactBlock art).Silent := by
  unfold artifactBlock
  split
  · refine ⟨?_, ?_⟩
    · rw [Block.remarks, silent.1]
      rfl
    · rw [Block.singles, silent.2]
      rfl
  · exact silent_done

theorem silent_services (services : List Text) : (wordsBlock "services" (services.map .plain)).Silent :=
  silent_words _ _ fun w member => by
    obtain ⟨s, -, rfl⟩ := List.mem_map.1 member
    rfl

theorem silent_flag (allowed : Bool) : (if allowed then plainLeaf "allow_failure" "true" else .done).Silent := by
  cases allowed with
  | true => exact ⟨rfl, rfl⟩
  | false => exact silent_done

end Silent

theorem occasion_remarks (j : Job) : (occasionBlock j).remarks = [] := by
  unfold occasionBlock
  split
  · exact (silent_setting "when" j.when_).1
  · rfl

-- Of the scalars of a job only the conditions of its rules stand in single quotes.
theorem occasion_singles (j : Job) : (occasionBlock j).singles = j.rules.map (·.condition) := by
  unfold occasionBlock
  cases rules : j.rules with
  | nil => exact (silent_setting "when" j.when_).2
  | cons first rest =>
    have record (r : JobRule) : ((ruleRecord r).first :: (ruleRecord r).others).flatMap (·.2.singles) = [r.condition] := by
      unfold ruleRecord
      cases r.when_ with
      | none => rfl
      | some w => rfl
    change ((first :: rest).map ruleRecord).flatMap _ ++ [] = _
    rw [List.append_nil, List.flatMap_map, funext record]
    exact List.map_eq_flatMap.symm

section Short

theorem short_image (image : Option JobImage) : (imageBlock image).Short := by
  cases image with
  | none => exact short_done
  | some i =>
    have fixed : ∀ k ∈ [bareKey "image", bareKey "name", bareKey "entrypoint"], k.isShort = true := by decide
    unfold imageBlock
    dsimp only
    split
    · exact fixed
    · exact fun k member => fixed k (List.mem_of_mem_take (i := 1) member)

theorem short_words (key : String) (short : (bareKey key).isShort = true) (items : List Written) :
    (wordsBlock key items).Short := by
  unfold wordsBlock
  split
  · exact short_done
  · exact List.forall_mem_singleton.2 short

theorem short_variables (assignments : List (Text × Text)) :
    (variableBlock assignments).Short ↔ ∀ a ∈ assignments, a.1.length ≤ 1024 := by
  cases assignments with
  | nil => exact iff_of_true short_done fun a none => nomatch none
  | cons a rest =>
    have own : (bareKey "variables").isShort = true := by decide
    change (∀ k ∈ bareKey "variables" :: (fieldsBlock _).keys ++ [], _) ↔ _
    rw [fields_keys, List.append_nil, List.forall_mem_cons, List.map_map, List.forall_mem_map]
    exact (and_iff_right own).trans (forall₂_congr fun b _ => decide_eq_true_iff)

theorem short_needs (needs : Option (List Text)) : (needsBlock needs).Short := by
  cases needs with
  | none => exact short_done
  | some names => exact List.forall_mem_singleton.2 (by decide)

theorem short_matrix (axes : List (Text × List Text)) :
    (matrixBlock axes).Short ↔ ∀ a ∈ axes, a.1.length ≤ 1024 := by
  cases axes with
  | nil => exact iff_of_true short_done fun a none => nomatch none
  | cons first rest =>
    have own : (bareKey "parallel").isShort = true ∧ (bareKey "matrix").isShort = true := by decide
    have keys : (matrixBlock (first :: rest)).keys =
        bareKey "parallel" :: bareKey "matrix" :: (first :: rest).map fun a => ⟨a.1, true⟩ := by
      simp [matrixBlock, Block.keys, axisField]
    unfold Block.Short
    rw [keys, List.forall_mem_cons, List.forall_mem_cons, List.forall_mem_map]
    exact (and_iff_right own.1).trans
      ((and_iff_right own.2).trans (forall₂_congr fun b _ => decide_eq_true_iff))

theorem short_action (j : Job) : (actionBlock j).Short := by
  unfold actionBlock
  cases j.trigger with
  | some project =>
    have fixed : ∀ k ∈ [bareKey "trigger", bareKey "project", bareKey "strategy"], k.isShort = true := by decide
    exact fixed
  | none =>
    exact (short_append _ _).2 ⟨short_words "before_script" (by decide) _, List.forall_mem_singleton.2 (by decide)⟩

theorem short_setting (key : String) (short : (bareKey key).isShort = true) (value : Option Text) :
    (settingBlock key value).Short := by
  cases value with
  | none => exact short_done
  | some s => exact List.forall_mem_singleton.2 short

theorem short_artifacts {art : Block} (short : art.Short) : (artifactBlock art).Short := by
  unfold artifactBlock
  split
  · have own : (bareKey "artifacts").isShort = true := by decide
    change ∀ k ∈ bareKey "artifacts" :: art.keys ++ [], _
    rw [List.append_nil]
    exact List.forall_mem_cons.2 ⟨own, short⟩
  · exact short_done

theorem short_occasion (j : Job) : (occasionBlock j).Short := by
  unfold occasionBlock
  split
  · exact short_setting "when" (by decide) j.when_
  · have fixed : ∀ k ∈ [bareKey "rules", bareKey "if", bareKey "when"], k.isShort = true := by decide
    change ∀ k ∈ bareKey "rules" :: (j.rules.map ruleRecord).flatMap _ ++ [], _
    rw [List.append_nil, List.forall_mem_cons, List.forall_mem_flatMap, List.forall_mem_map]
    refine ⟨fixed _ List.mem_cons_self, fun r _ => ?_⟩
    unfold ruleRecord
    cases r.when_ with
    | none => exact List.forall_mem_singleton.2 (fixed _ (List.mem_cons_of_mem _ List.mem_cons_self))
    | some w => exact fun k member => fixed k (List.mem_cons_of_mem _ member)

end Short

section Body

variable {j : Job} {art : Block} (tidy : j.Tidy art)

include tidy

theorem body_remarks : (j.body art).remarks = [] := by
  simp only [body, remarks_append, (silent_image j.image).1, (silent_services j.services).1,
    (silent_variables j.assignments).1, (silent_needs j.needs).1, (silent_matrix j.matrix).1, (silent_action j).1,
    (silent_setting "environment" j.environment).1, (silent_setting "resource_group" j.resourceGroup).1,
    (silent_artifacts tidy.artifacts.silent).1, occasion_remarks, (silent_flag j.allowFailure).1, List.append_nil]
  rfl

-- Of the scalars of a job only the conditions of its rules stand in single quotes.
theorem body_singles : (j.body art).singles = j.rules.map (·.condition) := by
  simp only [body, singles_append, (silent_image j.image).2, (silent_services j.services).2,
    (silent_variables j.assignments).2, (silent_needs j.needs).2, (silent_matrix j.matrix).2, (silent_action j).2,
    (silent_setting "environment" j.environment).2, (silent_setting "resource_group" j.resourceGroup).2,
    (silent_artifacts tidy.artifacts.silent).2, occasion_singles, (silent_flag j.allowFailure).2, List.append_nil, List.nil_append]
  rfl

-- The keys of a job are short when its variables have short names.
theorem body_short : (j.body art).Short ↔ ∀ n ∈ j.variableNames, n.length ≤ 1024 := by
  have stage : (plainLeaf "stage" j.stage).Short := List.forall_mem_singleton.2 (by decide)
  have flag : (if j.allowFailure then plainLeaf "allow_failure" "true" else .done).Short := by
    split
    · exact List.forall_mem_singleton.2 (by decide)
    · exact short_done
  simp only [body, short_append, stage, short_image, short_words "services" (by decide), short_variables, short_needs,
    short_matrix, short_action, short_setting "environment" (by decide), short_setting "resource_group" (by decide),
    short_artifacts tidy.artifacts.short, short_occasion, flag, true_and, and_true]
  rw [variableNames, List.forall_mem_append, List.forall_mem_map, List.forall_mem_map]

end Body

section Block

theorem block_filled (j : Job) (art : Block) : (j.block art).hasEntry = true := by
  rw [block, has_entry_append]
  exact Bool.or_true _

theorem block_entries (j : Job) (art : Block) :
    (j.block art).entries = [(.text j.name, .mapping (ofEntries (j.body art).entries))] := by
  rw [block, entries_append, quiet_entries]
  rfl

variable {j : Job} {art : Block} (tidy : j.Tidy art)

include tidy

theorem block_remarks : (j.block art).remarks = j.comments.map ("# ".toList ++ ·) := by
  rw [block, remarks_append, quiet_remarks, Block.remarks, body_remarks tidy]
  exact List.append_nil _

theorem block_singles : (j.block art).singles = j.rules.map (·.condition) := by
  rw [block, singles_append, quiet_singles, Block.singles, body_singles tidy]
  exact List.append_nil _

theorem block_short : (j.block art).Short ↔
    (quote j.name).length ≤ 1024 ∧ ∀ n ∈ j.variableNames, n.length ≤ 1024 := by
  unfold Block.Short
  rw [block, keys_append, quiet_keys]
  change (∀ k ∈ [] ++ (⟨j.name, false⟩ :: (j.body art).keys ++ []), _) ↔ _
  rw [List.nil_append, List.append_nil, List.forall_mem_cons]
  exact and_congr decide_eq_true_iff (body_short tidy)

end Block

/-- The keys of a job, in their order. -/
def bodyKeys : List String :=
  ["stage", "image", "services", "variables", "needs", "parallel", "trigger", "before_script", "script",
    "environment", "resource_group", "artifacts", "rules", "when", "allow_failure"]

theorem body_keys_apart : ((bodyKeys.map bareKey).map Key.value).Pairwise Apart := by decide

section Heads

theorem image_heads (image : Option JobImage) : (imageBlock image).heads.Sublist [bareKey "image"] := by
  cases image with
  | none => exact List.nil_sublist _
  | some i =>
    unfold imageBlock
    dsimp only
    split
    · exact List.Sublist.refl _
    · exact List.Sublist.refl _

theorem words_heads (key : String) (items : List Written) : (wordsBlock key items).heads.Sublist [bareKey key] := by
  unfold wordsBlock
  split
  · exact List.nil_sublist _
  · exact List.Sublist.refl _

theorem variables_heads (assignments : List (Text × Text)) :
    (variableBlock assignments).heads.Sublist [bareKey "variables"] := by
  unfold variableBlock
  split
  · exact List.nil_sublist _
  · exact List.Sublist.refl _

theorem needs_heads (needs : Option (List Text)) : (needsBlock needs).heads.Sublist [bareKey "needs"] := by
  cases needs with
  | none => exact List.nil_sublist _
  | some names => exact List.Sublist.refl _

theorem matrix_heads (axes : List (Text × List Text)) : (matrixBlock axes).heads.Sublist [bareKey "parallel"] := by
  cases axes with
  | nil => exact List.nil_sublist _
  | cons first rest => exact List.Sublist.refl _

theorem action_heads (j : Job) :
    (actionBlock j).heads.Sublist [bareKey "trigger", bareKey "before_script", bareKey "script"] := by
  unfold actionBlock
  cases j.trigger with
  | some project => exact (List.Sublist.refl [bareKey "trigger"]).append (List.nil_sublist _)
  | none =>
    rw [heads_append]
    exact ((words_heads "before_script" _).append (List.Sublist.refl [bareKey "script"])).cons _

theorem setting_heads (key : String) (value : Option Text) :
    (settingBlock key value).heads.Sublist [bareKey key] := by
  cases value with
  | none => exact List.nil_sublist _
  | some s => exact List.Sublist.refl _

theorem artifact_heads (art : Block) : (artifactBlock art).heads.Sublist [bareKey "artifacts"] := by
  unfold artifactBlock
  split
  · exact List.Sublist.refl _
  · exact List.nil_sublist _

theorem occasion_heads (j : Job) : (occasionBlock j).heads.Sublist [bareKey "rules", bareKey "when"] := by
  unfold occasionBlock
  split
  · exact (setting_heads "when" j.when_).cons _
  · exact (List.Sublist.refl [bareKey "rules"]).append (List.nil_sublist _)

theorem flag_heads (allowed : Bool) :
    (if allowed then plainLeaf "allow_failure" "true" else .done).heads.Sublist [bareKey "allow_failure"] := by
  cases allowed with
  | true => exact List.Sublist.refl _
  | false => exact List.nil_sublist _

end Heads

/-- What comes after the needs of a job. -/
def doing (j : Job) (art : Block) : Block :=
  matrixBlock j.matrix ++ (actionBlock j ++ (settingBlock "environment" j.environment ++
    (settingBlock "resource_group" j.resourceGroup ++ (artifactBlock art ++ (occasionBlock j ++
      if j.allowFailure then plainLeaf "allow_failure" "true" else .done)))))

theorem body_eq (j : Job) (art : Block) : j.body art = plainLeaf "stage" j.stage ++ (imageBlock j.image ++
    (wordsBlock "services" (j.services.map .plain) ++ (variableBlock j.assignments ++
      (needsBlock j.needs ++ j.doing art)))) := rfl

theorem doing_heads (j : Job) (art : Block) : (j.doing art).heads.Sublist ((bodyKeys.drop 5).map bareKey) := by
  simp only [doing, heads_append]
  exact (matrix_heads j.matrix).append ((action_heads j).append ((setting_heads "environment" _).append
    ((setting_heads "resource_group" _).append ((artifact_heads art).append
      ((occasion_heads j).append (flag_heads j.allowFailure))))))

theorem body_heads (j : Job) (art : Block) : (j.body art).heads.Sublist (bodyKeys.map bareKey) := by
  simp only [body_eq, heads_append]
  exact (List.Sublist.refl [bareKey "stage"]).append ((image_heads j.image).append ((words_heads "services" _).append
    ((variables_heads j.assignments).append ((needs_heads j.needs).append (doing_heads j art)))))

theorem body_entries (j : Job) (art : Block) : ofEntries (j.body art).entries = (j.body art).entries :=
  of_entries_block _ (body_keys_apart.sublist ((body_heads j art).map Key.value))

section Lookup

open Lint (get?)

variable (j : Job) (art : Block)

theorem body_stage (text : plainValue j.stage = .text j.stage) :
    get? "stage" (j.body art).entries = some (.text j.stage) := by
  have named : (bareKey "stage").value.same (.text "stage".toList) = true := by decide
  rw [body_eq, entries_append, Lint.get_append]
  have own : get? "stage" (plainLeaf "stage" j.stage).entries = some (plainValue j.stage) := by
    simp only [get?, plainLeaf, Block.entries, List.find?_cons, named]
    rfl
  rw [own, text]
  rfl

theorem body_needs : get? "needs" (j.body art).entries = j.needs.map fun ns => .list (ns.map .text) := by
  have stage : get? "needs" (plainLeaf "stage" j.stage).entries = none :=
    @Lint.get_absent_block "needs" (plainLeaf "stage" j.stage) ["stage"] (List.Sublist.refl _) (by decide)
  have image := @Lint.get_absent_block "needs" _ ["image"] (image_heads j.image) (by decide)
  have services := @Lint.get_absent_block "needs" _ ["services"]
    (words_heads "services" (j.services.map .plain)) (by decide)
  have assigned := @Lint.get_absent_block "needs" _ ["variables"] (variables_heads j.assignments) (by decide)
  have doing := @Lint.get_absent_block "needs" _ (bodyKeys.drop 5) (doing_heads j art) (by decide)
  have named : (bareKey "needs").value.same (.text "needs".toList) = true := by decide
  have own : get? "needs" (needsBlock j.needs).entries = j.needs.map fun ns => .list (ns.map .text) := by
    cases j.needs with
    | none => rfl
    | some names =>
      simp only [get?, needsBlock, Block.entries, List.find?_cons, named]
      rfl
  simp only [body_eq, entries_append, Lint.get_append, stage, image, services, assigned, doing, own, Option.none_or,
    Option.or_none]

theorem body_runs : (get? "script" (j.body art).entries).isSome = true ∨
    (get? "trigger" (j.body art).entries).isSome = true := by
  have inside {k : Key} (head : k ∈ (actionBlock j).heads) : k ∈ (j.body art).heads := by
    simp only [body_eq, doing, heads_append, List.mem_append]
    tauto
  cases trigger : j.trigger with
  | some project =>
    have head : bareKey "trigger" ∈ (actionBlock j).heads := by
      rw [actionBlock, trigger]
      exact List.mem_cons_self
    exact .inr (Lint.get_present_block "trigger" _ (inside head) (by decide))
  | none =>
    have head : bareKey "script" ∈ (actionBlock j).heads := by
      rw [actionBlock, trigger]
      dsimp only
      rw [heads_append]
      exact List.mem_append_right _ List.mem_cons_self
    exact .inl (Lint.get_present_block "script" _ (inside head) (by decide))

-- The body that is read is that of the job.
theorem body_describes (text : plainValue j.stage = .text j.stage) :
    Lint.Describes (ofEntries (j.body art).entries) j := by
  rw [body_entries]
  exact ⟨body_stage j art text, body_runs j art, body_needs j art⟩

end Lookup
end PipelineMigration.Job
