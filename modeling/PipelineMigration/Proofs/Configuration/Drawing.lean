import Mathlib.Data.List.Basic
import PipelineMigration.Configuration.Document
import PipelineMigration.Proofs.Yaml.Heads
set_option autoImplicit false

/- The blocks that the sections of a configuration show. -/
namespace PipelineMigration.Configuration

open Yaml

/-- A template as it is named in the include section. -/
def isTemplate (t : Text) : Bool := "template: ".toList.isPrefixOf t && isLeafWord (t.drop 10)

def includeRecord (t : Text) : Record := ⟨(bareKey "template", .scalar (.plain (t.drop 10))), []⟩

def includeBlock (refs : List Text) : Block :=
  if refs.isEmpty then .done else .records (bareKey "include") (refs.map includeRecord) .done

def sourceRecord (source : Text) : Record :=
  ⟨(bareKey "if", .scalar (.single ("$CI_PIPELINE_SOURCE == \"".toList ++ source ++ "\"".toList))), []⟩

def workflowBlock (parameters : List Parameter) : Block :=
  if parameters.isEmpty then .done
  else .nested (bareKey "workflow") (.records (bareKey "rules") (pipelineSources.map sourceRecord) .done) .done

def stageBlock (stages : List Text) : Block := .words (bareKey "stages") (stages.map .plain) .done

namespace VariableEntry

def choiceBlock (choices : List Text) : Block :=
  if choices.isEmpty then .done else .words (bareKey "options") (choices.map .double) .done

def block : VariableEntry → Block
  | withheld remark => .quiet 2 ("# ".toList ++ remark) .done
  | plain key value => .leaf ⟨key, Text.isIdentifier key⟩ (.scalar (.double value)) .done
  | detailed key value choices description => .nested ⟨key, Text.isIdentifier key⟩
      (.leaf (bareKey "value") (.scalar (.double value)) .done ++ (choiceBlock choices ++
        if description.isEmpty then .done
        else .leaf (bareKey "description") (.scalar (.double description)) .done)) .done

end VariableEntry

def entriesBlock (entries : List VariableEntry) : Block := entries.foldr (fun e rest => e.block ++ rest) .done

def variableBlock (entries : List VariableEntry) : Block :=
  if entries.isEmpty then .done
  else if entries.all (·.isWithheld) then
    .leaf (bareKey "variables") .emptyMapping .done ++ quietBlock 0 ((entries.flatMap (·.lines)).map Text.trim)
  else .nested (bareKey "variables") (entriesBlock entries) .done

def cacheBlock (paths : List Text) : Block :=
  if paths.isEmpty then .done
  else .nested (bareKey "cache") (plainLeaf "key" (Text.Shell.expansion "CI_COMMIT_REF_SLUG") ++
    .words (bareKey "paths") (paths.map .plain) .done) .done

def settingBlock (key : String) : Option Text → Block
  | none => .done
  | some s => plainLeaf key s

def remarkBlock : Option Text → Block
  | none => .done
  | some s => .quiet 2 s .done

def limitBlock (limits : Limits) : Block :=
  settingBlock "timeout" (limits.timeout.map (· ++ ['m'])) ++
    (remarkBlock (limits.excessRetry.map fun n => (excessRetryLine n).drop 2) ++
      (settingBlock "retry" limits.retry ++
        match limits.expiry with
        | some expiry => .nested (bareKey "artifacts") (plainLeaf "expire_in" expiry) .done
        | none => .done))

def defaultBlock (tool : BuildTool) (limits : Limits) (r : Retention) : Block :=
  .nested (bareKey "default") (.quiet 2 (pinningLine.drop 2) .done ++ (plainLeaf "image" tool.image ++
    (cacheBlock tool.cachePaths ++ (limitBlock limits ++
      if r.numToKeep == 0 && r.artifactNumToKeep == 0 then .done
      else .quiet 2 (keptBuildsLine.drop 2) .done)))) .done

section Sections

theorem draws_comments (lines : List Text) : Draws (quietBlock 0 lines) 0 lines := by
  have drawn := draws_quiet 0 lines 0
  have same : lines.map (List.replicate 0 ' ' ++ ·) = lines := List.map_id' lines
  rwa [same] at drawn

theorem draws_include (verdicts : List Verdict) (known : ∀ t ∈ templates verdicts, isTemplate t = true) :
    Draws (includeBlock (templates verdicts)) 0 (includeSection verdicts) := by
  unfold includeBlock includeSection
  cases refs : templates verdicts with
  | nil => exact draws_done 0
  | cons t rest =>
    rw [refs] at known
    have parts (s : Text) (member : s ∈ t :: rest) : PlainLeaf (s.drop 10) ∧
        recordTexts 2 (includeRecord s) = [listItem s] := by
      obtain ⟨begins, word⟩ := Bool.and_eq_true_iff.1 (known s member)
      obtain ⟨path, rfl⟩ := List.isPrefixOf_iff_prefix.1 begins
      exact ⟨plain_leaf_word word, rfl⟩
    have filled : (t :: rest).map includeRecord ≠ [] := List.cons_ne_nil _ _
    have drawn := @draws_records 0 _ (bare_key_fits "include" (by decide)) _ filled fun r member f field => by
      obtain ⟨s, among, rfl⟩ := List.mem_map.1 member
      rw [List.mem_singleton.1 field]
      exact ⟨bare_key_fits "template" (by decide), (parts s among).1.fits, (parts s among).1.sound⟩
    refine ⟨drawn.text.trans ?_, drawn.fits, drawn.sound⟩
    rw [List.flatMap_map, List.flatMap_congr fun s member => (parts s member).2, ← List.map_eq_flatMap]
    rfl

theorem draws_workflow (parameters : List Parameter) :
    Draws (workflowBlock parameters) 0 (workflowSection parameters) := by
  unfold workflowBlock workflowSection
  split
  · exact draws_done 0
  · have filled : pipelineSources.map sourceRecord ≠ [] := List.cons_ne_nil _ _
    have records := @draws_records 2 _ (bare_key_fits "rules" (by decide)) _ filled fun r member f field => by
      obtain ⟨s, among, rfl⟩ := List.mem_map.1 member
      rw [List.mem_singleton.1 field]
      exact ⟨bare_key_fits "if" (by decide), trivial, rfl⟩
    exact draws_nested (bare_key_fits "workflow" (by decide)) rfl records

theorem draws_stages (stages : List Text) (filled : stages ≠ []) (plain : ∀ s ∈ stages, isLeafWord s = true) :
    Draws (stageBlock stages) 0 (stageSection stages) := by
  have items : stages.map Written.plain ≠ [] := by simpa using filled
  have drawn := @draws_words 0 _ (bare_key_fits "stages" (by decide)) _ items (plain_words_sound plain)
  rw [List.map_map] at drawn
  exact drawn

end Sections

section Variables

theorem key_fits (name : Text) : (Key.mk name (Text.isIdentifier name)).Fits := id

theorem draws_choices (choices : List Text) :
    Draws (VariableEntry.choiceBlock choices) 4 (VariableEntry.choiceLines choices) := by
  unfold VariableEntry.choiceBlock VariableEntry.choiceLines
  cases choices with
  | nil => exact draws_done 4
  | cons c rest =>
    have items : (c :: rest).map Written.double ≠ [] := List.cons_ne_nil _ _
    have drawn := @draws_words 4 _ (bare_key_fits "options" (by decide)) _ items fun w member => by
      obtain ⟨s, -, rfl⟩ := List.mem_map.1 member
      exact ⟨trivial, rfl⟩
    rw [List.map_map] at drawn
    exact drawn

theorem draws_description (description : Text) :
    Draws (if description.isEmpty then .done else .leaf (bareKey "description") (.scalar (.double description)) .done)
      4 (if description.isEmpty then [] else ["    description: ".toList ++ quote description]) := by
  split
  · exact draws_done 4
  · exact draws_double (bare_key_fits "description" (by decide)) description

theorem draws_entry (e : VariableEntry) : Draws e.block 2 e.lines := by
  cases e with
  | withheld remark => exact draws_quiet 2 ["# ".toList ++ remark] 2
  | plain key value =>
    have drawn := @draws_double 2 _ (key_fits key) value
    refine ⟨drawn.text.trans ?_, drawn.fits, drawn.sound⟩
    rw [VariableEntry.lines, List.append_assoc, List.append_assoc]
    rfl
  | detailed key value choices description =>
    have inner := (draws_double (bare_key_fits "value" (by decide)) value).append
      ((draws_choices choices).append (draws_description description))
    have drawn := @draws_nested 2 _ (key_fits key) _ _ rfl inner
    refine ⟨drawn.text.trans ?_, drawn.fits, drawn.sound⟩
    rw [VariableEntry.lines, List.append_assoc, List.append_assoc]
    rfl

theorem draws_entries (entries : List VariableEntry) :
    Draws (entriesBlock entries) 2 (entries.flatMap (·.lines)) := by
  induction entries with
  | nil => exact draws_done 2
  | cons e rest ih => exact (draws_entry e).append ih

theorem entry_filled (e : VariableEntry) : e.block.hasEntry = !e.isWithheld := by
  cases e with
  | withheld remark => rfl
  | plain key value => rfl
  | detailed key value choices description => rfl

theorem entries_filled (entries : List VariableEntry) :
    (entriesBlock entries).hasEntry = !entries.all (·.isWithheld) := by
  induction entries with
  | nil => rfl
  | cons e rest ih =>
    have parts : entriesBlock (e :: rest) = e.block ++ entriesBlock rest := rfl
    rw [parts, has_entry_append, entry_filled, ih, List.all_cons, Bool.not_and]

theorem draws_variables (entries : List VariableEntry) :
    Draws (variableBlock entries) 0 (variableSection entries) := by
  unfold variableBlock variableSection
  dsimp only
  split
  · exact draws_done 0
  · split
    · have key : Draws (.leaf (bareKey "variables") .emptyMapping .done) 0 ["variables: \x7b\x7d".toList] :=
        ⟨rfl, ⟨bare_key_fits "variables" (by decide), trivial, trivial⟩, rfl⟩
      exact key.append (draws_comments _)
    · rename_i some
      have filled : (entriesBlock entries).hasEntry = true := by
        rw [entries_filled]
        simpa using some
      exact draws_nested (bare_key_fits "variables" (by decide)) filled (draws_entries entries)

end Variables

section Default

theorem draws_setting (key : String) (identifier : Text.isIdentifier key.toList = true) (value : Option Text)
    (plain : ∀ s ∈ value, PlainLeaf s) : Draws (settingBlock key value) 2
      (value.map fun s => "  ".toList ++ (key.toList ++ ':' :: ' ' :: s)).toList := by
  cases value with
  | none => exact draws_done 2
  | some s => exact draws_plain_leaf key identifier (plain s rfl) 2

theorem draws_cache (paths : List Text) (plain : ∀ p ∈ paths, isLeafWord p = true) :
    Draws (cacheBlock paths) 2 (cacheLines paths) := by
  unfold cacheBlock cacheLines
  cases paths with
  | nil => exact draws_done 2
  | cons p rest =>
    have items : (p :: rest).map Written.plain ≠ [] := List.cons_ne_nil _ _
    have drawn := @draws_words 4 _ (bare_key_fits "paths" (by decide)) _ items (plain_words_sound plain)
    rw [List.map_map] at drawn
    exact draws_nested (bare_key_fits "cache" (by decide)) rfl
      ((draws_plain_leaf "key" (by decide) (plain_leaf_word (by decide)) 4).append drawn)

/-- Limits that are numbers with their units. -/
structure Limits.Plain (limits : Limits) : Prop where
  timeout : ∀ t ∈ limits.timeout, PlainLeaf (t ++ ['m'])
  retry : ∀ n ∈ limits.retry, isLeafWord n = true
  expiry : ∀ e ∈ limits.expiry, PlainLeaf e

theorem draws_limits (limits : Limits) (plain : limits.Plain) :
    Draws (limitBlock limits) 2 (limitLines limits) := by
  have timeout := draws_setting "timeout" (by decide) (limits.timeout.map (· ++ ['m'])) fun s member => by
    obtain ⟨t, said, rfl⟩ := Option.map_eq_some_iff.1 member
    exact plain.timeout t said
  have retry := draws_setting "retry" (by decide) limits.retry fun n said => plain_leaf_word (plain.retry n said)
  have excess : Draws (remarkBlock (limits.excessRetry.map fun n => (excessRetryLine n).drop 2)) 2
      (limits.excessRetry.map excessRetryLine).toList := by
    cases limits.excessRetry with
    | none => exact draws_done 2
    | some n => exact draws_quiet 2 [(excessRetryLine n).drop 2] 2
  have expiry : Draws (match limits.expiry with
      | some expiry => .nested (bareKey "artifacts") (plainLeaf "expire_in" expiry) .done
      | none => .done) 2 (match limits.expiry with
      | some expiry => ["  artifacts:".toList, "    expire_in: ".toList ++ expiry]
      | none => []) := by
    cases said : limits.expiry with
    | none => exact draws_done 2
    | some e =>
      exact draws_nested (bare_key_fits "artifacts" (by decide)) rfl
        (draws_plain_leaf "expire_in" (by decide) (plain.expiry e said) 4)
  have drawn := timeout.append (excess.append (retry.append expiry))
  refine ⟨drawn.text.trans ?_, drawn.fits, drawn.sound⟩
  unfold limitLines
  simp only [List.append_assoc]
  cases limits.timeout with
  | none => rfl
  | some t => rfl

theorem draws_default (tool : BuildTool) (limits : Limits) (r : Retention) (image : isLeafWord tool.image = true)
    (paths : ∀ p ∈ tool.cachePaths, isLeafWord p = true) (plain : limits.Plain) :
    Draws (defaultBlock tool limits r) 0 (defaultSection tool limits r) := by
  have pinning : Draws (.quiet 2 (pinningLine.drop 2) .done) 2 [pinningLine] := draws_quiet 2 [pinningLine.drop 2] 2
  have kept : Draws (if r.numToKeep == 0 && r.artifactNumToKeep == 0 then .done
      else .quiet 2 (keptBuildsLine.drop 2) .done) 2
      (if r.numToKeep == 0 && r.artifactNumToKeep == 0 then [] else [keptBuildsLine]) := by
    split
    · exact draws_done 2
    · exact draws_quiet 2 [keptBuildsLine.drop 2] 2
  have inner := pinning.append ((draws_plain_leaf "image" (by decide) (plain_leaf_word image) 2).append
    ((draws_cache tool.cachePaths paths).append ((draws_limits limits plain).append kept)))
  have drawn := @draws_nested 0 _ (bare_key_fits "default" (by decide)) _ _ rfl inner
  refine ⟨drawn.text.trans ?_, drawn.fits, drawn.sound⟩
  unfold defaultSection
  simp only [List.append_assoc]
  rfl

end Default

end PipelineMigration.Configuration
