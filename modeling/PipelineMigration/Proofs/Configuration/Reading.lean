import PipelineMigration.Proofs.Configuration.Drawing
import PipelineMigration.Proofs.Configuration.Lint
import PipelineMigration.Proofs.Text.Trim
import PipelineMigration.Proofs.Yaml.Page
set_option autoImplicit false

/- What the sections of a configuration hold: comments that begin as comments do, no scalar in single quotes but
   fixed ones, and keys that are fixed but for the names of variables. -/
namespace PipelineMigration.Configuration

open Yaml

/-- A block whose comments begin as comments do. -/
def Marked (b : Block) : Prop := ∀ r ∈ b.remarks, r.head? = some '#'

theorem marked_append {a b : Block} (here : Marked a) (there : Marked b) : Marked (a ++ b) := by
  unfold Marked
  rw [remarks_append]
  exact List.forall_mem_append.2 ⟨here, there⟩

theorem marked_silent {b : Block} (silent : b.Silent) : Marked b := by
  unfold Marked
  rw [silent.1]
  exact fun _ none => nomatch none

theorem marked_quiet (indent : Nat) (remarks : List Text) (each : ∀ r ∈ remarks, r.head? = some '#') :
    Marked (quietBlock indent remarks) := by
  unfold Marked
  rw [quiet_remarks]
  exact each

section Fixed

theorem include_silent (refs : List Text) : (includeBlock refs).Silent ∧ (includeBlock refs).Short := by
  have fixed : (bareKey "include").isShort = true ∧ (bareKey "template").isShort = true := by decide
  unfold includeBlock
  split
  · exact ⟨silent_done, short_done⟩
  · refine ⟨⟨rfl, ?_⟩, ?_⟩
    · change (refs.map includeRecord).flatMap _ ++ [] = _
      rw [List.append_nil, List.flatMap_map, List.flatMap_eq_nil_iff]
      exact fun t _ => rfl
    · change ∀ k ∈ bareKey "include" :: (refs.map includeRecord).flatMap _ ++ [], _
      rw [List.append_nil, List.forall_mem_cons, List.forall_mem_flatMap, List.forall_mem_map]
      exact ⟨fixed.1, fun t _ => List.forall_mem_singleton.2 fixed.2⟩

theorem workflow_fixed (parameters : List Parameter) : (workflowBlock parameters).remarks = [] ∧
    (∀ s ∈ (workflowBlock parameters).singles, meetsMark s = false) ∧ (workflowBlock parameters).Short := by
  unfold workflowBlock
  split
  · exact ⟨rfl, (fun _ none => nomatch none), short_done⟩
  · refine ⟨rfl, ?_, ?_⟩
    · decide
    · unfold Block.Short
      decide

theorem stage_fixed (stages : List Text) : (stageBlock stages).Silent ∧ (stageBlock stages).Short := by
  refine ⟨⟨rfl, ?_⟩, List.forall_mem_singleton.2 (by decide)⟩
  change (stages.map Written.plain).flatMap Written.singles ++ [] = _
  rw [List.append_nil, List.flatMap_map, List.flatMap_eq_nil_iff]
  exact fun s _ => rfl

end Fixed

namespace VariableEntry

/-- The key that an entry has in the section. -/
def key? : VariableEntry → Option Text
  | withheld _ => none
  | plain key _ => some key
  | detailed key _ _ _ => some key

theorem choice_fixed (choices : List Text) : (choiceBlock choices).Silent ∧ (choiceBlock choices).Short := by
  unfold choiceBlock
  split
  · exact ⟨silent_done, short_done⟩
  · refine ⟨⟨rfl, ?_⟩, List.forall_mem_singleton.2 (by decide)⟩
    change (choices.map Written.double).flatMap Written.singles ++ [] = _
    rw [List.append_nil, List.flatMap_map, List.flatMap_eq_nil_iff]
    exact fun s _ => rfl

theorem description_fixed (description : Text) :
    (if description.isEmpty then .done
      else .leaf (bareKey "description") (.scalar (.double description)) .done : Block).Silent ∧
    (if description.isEmpty then .done
      else .leaf (bareKey "description") (.scalar (.double description)) .done : Block).Short := by
  split
  · exact ⟨silent_done, short_done⟩
  · exact ⟨⟨rfl, rfl⟩, List.forall_mem_singleton.2 (by decide)⟩

theorem entry_marked (e : VariableEntry) : Marked e.block := by
  cases e with
  | withheld remark => exact List.forall_mem_singleton.2 rfl
  | plain key value => exact marked_silent ⟨rfl, rfl⟩
  | detailed key value choices description =>
    unfold Marked
    change ∀ r ∈ (_ ++ (choiceBlock choices ++ _) : Block).remarks ++ [], _
    rw [List.append_nil, remarks_append, remarks_append, (choice_fixed choices).1.1, (description_fixed description).1.1]
    exact fun _ none => nomatch none

theorem entry_singles (e : VariableEntry) : e.block.singles = [] := by
  cases e with
  | withheld remark => rfl
  | plain key value => rfl
  | detailed key value choices description =>
    change (_ ++ (choiceBlock choices ++ _) : Block).singles ++ [] = _
    rw [List.append_nil, singles_append, singles_append, (choice_fixed choices).1.2, (description_fixed description).1.2]
    rfl

theorem entry_short (e : VariableEntry) : e.block.Short ↔ ∀ k ∈ e.key?, (Yaml.key k).length ≤ 1024 := by
  have own (key : Text) : (Key.mk key (Text.isIdentifier key)).isShort = true ↔ (Yaml.key key).length ≤ 1024 :=
    decide_eq_true_iff
  cases e with
  | withheld remark => exact iff_of_true short_done fun _ none => nomatch none
  | plain key value =>
    refine Iff.trans ?_ ((own key).trans ?_)
    · exact List.forall_mem_singleton
    · simp [key?]
  | detailed key value choices description =>
    have value : (Block.leaf (bareKey "value") (.scalar (.double value)) .done).Short :=
      List.forall_mem_singleton.2 (by decide)
    have inner := (short_append _ _).2 ⟨value, (short_append _ _).2
      ⟨(choice_fixed choices).2, (description_fixed description).2⟩⟩
    change (∀ k ∈ ⟨key, Text.isIdentifier key⟩ :: Block.keys _ ++ [], _) ↔ _
    rw [List.append_nil, List.forall_mem_cons, own]
    refine (and_iff_left inner).trans ?_
    simp [key?]

end VariableEntry

section Variables

theorem entries_marked (entries : List VariableEntry) : Marked (entriesBlock entries) := by
  induction entries with
  | nil => exact marked_silent silent_done
  | cons e rest ih => exact marked_append e.entry_marked ih

theorem entries_singles (entries : List VariableEntry) : (entriesBlock entries).singles = [] := by
  induction entries with
  | nil => rfl
  | cons e rest ih =>
    change (e.block ++ entriesBlock rest).singles = []
    rw [singles_append, e.entry_singles, ih]
    rfl

theorem entries_short (entries : List VariableEntry) :
    (entriesBlock entries).Short ↔ ∀ k ∈ entries.filterMap (·.key?), (Yaml.key k).length ≤ 1024 := by
  induction entries with
  | nil => exact iff_of_true short_done fun _ none => nomatch none
  | cons e rest ih =>
    change (e.block ++ entriesBlock rest).Short ↔ _
    rw [short_append, e.entry_short, ih, List.filterMap_cons]
    cases e.key? with
    | none => simp
    | some k => simp

theorem trim_withheld (remark : Text) : (Text.trim ("  # ".toList ++ remark)).head? = some '#' := by
  have left : Text.trimLeftBy Text.isBlank ("  # ".toList ++ remark) = '#' :: ' ' :: remark := rfl
  rw [Text.trim, Text.trimBy, left]
  exact congrArg List.head? (Text.trim_right_behind [] (' ' :: remark) (by decide))

theorem withheld_lines (entries : List VariableEntry) (all : entries.all (·.isWithheld) = true) :
    ∀ l ∈ (entries.flatMap (·.lines)).map Text.trim, l.head? = some '#' := by
  rw [List.forall_mem_map, List.forall_mem_flatMap]
  intro e member
  have kept := List.all_eq_true.1 all e member
  cases e with
  | withheld remark => exact List.forall_mem_singleton.2 (trim_withheld remark)
  | plain key value => cases kept
  | detailed key value choices description => cases kept

theorem withheld_keys (entries : List VariableEntry) (all : entries.all (·.isWithheld) = true) :
    entries.filterMap (·.key?) = [] := by
  rw [List.filterMap_eq_nil_iff]
  intro e member
  have kept := List.all_eq_true.1 all e member
  cases e with
  | withheld remark => rfl
  | plain key value => cases kept
  | detailed key value choices description => cases kept

theorem variable_marked (entries : List VariableEntry) : Marked (variableBlock entries) := by
  unfold variableBlock
  split
  · exact marked_silent silent_done
  · split
    · rename_i all
      exact marked_append (marked_silent ⟨rfl, rfl⟩) (marked_quiet 0 _ (withheld_lines entries all))
    · change ∀ r ∈ (entriesBlock entries).remarks ++ [], _
      rw [List.append_nil]
      exact entries_marked entries

theorem variable_singles (entries : List VariableEntry) : (variableBlock entries).singles = [] := by
  unfold variableBlock
  split
  · rfl
  · split
    · rw [singles_append, quiet_singles]
      rfl
    · change (entriesBlock entries).singles ++ [] = []
      rw [entries_singles]
      rfl

theorem variable_short (entries : List VariableEntry) :
    (variableBlock entries).Short ↔ ∀ k ∈ entries.filterMap (·.key?), (Yaml.key k).length ≤ 1024 := by
  have own : (bareKey "variables").isShort = true := by decide
  unfold variableBlock
  split
  · rename_i empty
    rw [List.isEmpty_iff.1 empty]
    exact iff_of_true short_done fun _ none => nomatch none
  · split
    · rename_i all
      rw [withheld_keys entries all]
      refine iff_of_true ?_ fun _ none => nomatch none
      unfold Block.Short
      rw [keys_append, quiet_keys]
      exact List.forall_mem_singleton.2 own
    · change (∀ k ∈ bareKey "variables" :: (entriesBlock entries).keys ++ [], _) ↔ _
      rw [List.append_nil, List.forall_mem_cons]
      exact (and_iff_right own).trans (entries_short entries)

end Variables

section Default

theorem setting_fixed (key : String) (short : (bareKey key).isShort = true) (value : Option Text) :
    (settingBlock key value).Silent ∧ (settingBlock key value).Short := by
  cases value with
  | none => exact ⟨silent_done, short_done⟩
  | some s => exact ⟨⟨rfl, rfl⟩, List.forall_mem_singleton.2 short⟩

theorem cache_fixed (paths : List Text) : (cacheBlock paths).Silent ∧ (cacheBlock paths).Short := by
  have fixed : ∀ k ∈ [bareKey "cache", bareKey "key", bareKey "paths"], k.isShort = true := by decide
  unfold cacheBlock
  split
  · exact ⟨silent_done, short_done⟩
  · refine ⟨⟨rfl, ?_⟩, fixed⟩
    change ((paths.map Written.plain).flatMap Written.singles ++ []) ++ [] = _
    rw [List.append_nil, List.append_nil, List.flatMap_map, List.flatMap_eq_nil_iff]
    exact fun s _ => rfl

theorem limit_marked (limits : Limits) : Marked (limitBlock limits) := by
  refine marked_append (marked_silent (setting_fixed "timeout" (by decide) _).1) (marked_append ?_
    (marked_append (marked_silent (setting_fixed "retry" (by decide) _).1) ?_))
  · cases limits.excessRetry with
    | none => exact marked_silent silent_done
    | some n => exact List.forall_mem_singleton.2 rfl
  · cases limits.expiry with
    | none => exact marked_silent silent_done
    | some e => exact marked_silent ⟨rfl, rfl⟩

theorem limit_fixed (limits : Limits) : (limitBlock limits).singles = [] ∧ (limitBlock limits).Short := by
  have fixed : ∀ k ∈ [bareKey "artifacts", bareKey "expire_in"], k.isShort = true := by decide
  have timeout := setting_fixed "timeout" (by decide) (limits.timeout.map (· ++ ['m']))
  have retry := setting_fixed "retry" (by decide) limits.retry
  unfold limitBlock
  rw [singles_append, singles_append, singles_append, short_append, short_append, short_append, timeout.1.2, retry.1.2]
  refine ⟨?_, timeout.2, ?_, retry.2, ?_⟩
  · cases limits.excessRetry with
    | none => cases limits.expiry <;> rfl
    | some n => cases limits.expiry <;> rfl
  · cases limits.excessRetry with
    | none => exact short_done
    | some n => exact short_done
  · cases limits.expiry with
    | none => exact short_done
    | some e => exact fixed

theorem default_marked (tool : BuildTool) (limits : Limits) (r : Retention) :
    Marked (defaultBlock tool limits r) := by
  have pinning : Marked (.quiet 2 (pinningLine.drop 2) .done) := List.forall_mem_singleton.2 rfl
  have image : (plainLeaf "image" tool.image).Silent := ⟨rfl, rfl⟩
  have kept : Marked (if r.numToKeep == 0 && r.artifactNumToKeep == 0 then .done
      else .quiet 2 (keptBuildsLine.drop 2) .done) := by
    split
    · exact marked_silent silent_done
    · exact List.forall_mem_singleton.2 rfl
  have inner := marked_append pinning (marked_append (marked_silent image)
    (marked_append (marked_silent (cache_fixed tool.cachePaths).1) (marked_append (limit_marked limits) kept)))
  change ∀ r ∈ Block.remarks _ ++ [], _
  rw [List.append_nil]
  exact inner

theorem default_fixed (tool : BuildTool) (limits : Limits) (r : Retention) :
    (defaultBlock tool limits r).singles = [] ∧ (defaultBlock tool limits r).Short := by
  have own : (bareKey "default").isShort = true := by decide
  have pinning : (Block.quiet 2 (pinningLine.drop 2) .done).Short := short_done
  have image : (plainLeaf "image" tool.image).Short := List.forall_mem_singleton.2 (by decide)
  have kept : (if r.numToKeep == 0 && r.artifactNumToKeep == 0 then .done
      else .quiet 2 (keptBuildsLine.drop 2) .done : Block).singles = [] ∧
      (if r.numToKeep == 0 && r.artifactNumToKeep == 0 then .done
      else .quiet 2 (keptBuildsLine.drop 2) .done : Block).Short := by
    split
    · exact ⟨rfl, short_done⟩
    · exact ⟨rfl, short_done⟩
  have inner := (short_append _ _).2 ⟨pinning, (short_append _ _).2 ⟨image, (short_append _ _).2
    ⟨(cache_fixed tool.cachePaths).2, (short_append _ _).2 ⟨(limit_fixed limits).2, kept.2⟩⟩⟩⟩
  refine ⟨?_, ?_⟩
  · change Block.singles (_ ++ (_ ++ (_ ++ (_ ++ _)))) ++ [] = []
    rw [List.append_nil, singles_append, singles_append, singles_append, singles_append,
      (cache_fixed tool.cachePaths).1.2, (limit_fixed limits).1, kept.1]
    rfl
  · change ∀ k ∈ bareKey "default" :: Block.keys _ ++ [], _
    rw [List.append_nil, List.forall_mem_cons]
    exact ⟨own, inner⟩

end Default

end PipelineMigration.Configuration
