import PipelineMigration.Proofs.Configuration.Shown
import PipelineMigration.Proofs.Configuration.Told
import PipelineMigration.Proofs.Configuration.Valid
import PipelineMigration.Proofs.Job.Naming
import PipelineMigration.Proofs.Job.Placement
import PipelineMigration.Proofs.Yaml.Heads
set_option autoImplicit false

/- What the variables section says when it is read: what is planned, just when every name is short enough for a key
   and no word for a truth value or for null. -/
namespace PipelineMigration.Configuration

open Yaml

theorem bare_text (name : String) (look : Tag.ofPlain name.toList = .text) :
    (bareKey name).value = .text name.toList := plain_value_text look

namespace VariableEntry

/-- What stands under the key of an entry that has more than a value. -/
def details (value : Text) (choices : List Text) (description : Text) : Block :=
  .leaf (bareKey "value") (.scalar (.double value)) .done ++ (choiceBlock choices ++
    if description.isEmpty then .done else .leaf (bareKey "description") (.scalar (.double description)) .done)

theorem details_remarks (value : Text) (choices : List Text) (description : Text) :
    (details value choices description).remarks = [] := by
  rw [details, remarks_append, remarks_append, (choice_fixed choices).1.1, (description_fixed description).1.1]
  rfl

theorem detail_names_apart : [Value.text "value", .text "options", .text "description"].Pairwise Apart := by decide

theorem details_said (value : Text) (choices : List Text) (description : Text) :
    ofEntries (details value choices description).entries =
      (.text "value", .text value) :: (if choices.isEmpty then [] else [(.text "options", .list (choices.map .text))]) ++
        if description.isEmpty then [] else [(.text "description", .text description)] := by
  have first : (bareKey "value").value = .text "value" := bare_text "value" (by decide)
  have second : (bareKey "options").value = .text "options" := bare_text "options" (by decide)
  have third : (bareKey "description").value = .text "description" := bare_text "description" (by decide)
  have listed : (choiceBlock choices).entries =
      if choices.isEmpty then [] else [(.text "options", .list (choices.map .text))] := by
    unfold choiceBlock
    split
    · rfl
    · rw [Block.entries, second, List.map_map]
      rfl
  have described : (if description.isEmpty then .done
      else .leaf (bareKey "description") (.scalar (.double description)) .done : Block).entries =
      if description.isEmpty then [] else [(.text "description", .text description)] := by
    split
    · rfl
    · rw [Block.entries, third]
      rfl
  rw [details, entries_append, entries_append, listed, described, Block.entries, first]
  -- Whichever of the names are there, they stay apart.
  refine of_entries_distinct _ (detail_names_apart.sublist ?_)
  cases choices <;> cases description <;> simp [Block.entries]

theorem block_remarks (e : VariableEntry) (r : Text) (member : r ∈ e.block.remarks) :
    ∃ remark, e = withheld remark ∧ r = "# ".toList ++ remark := by
  cases e with
  | withheld remark => exact ⟨remark, rfl, List.mem_singleton.1 member⟩
  | plain key value => cases member
  | detailed key value choices description =>
    change r ∈ (details value choices description).remarks ++ [] at member
    rw [details_remarks] at member
    cases member

theorem block_entries (e : VariableEntry) :
    e.block.entries = (e.binding?.map fun b => ((nameKey b.1).value, b.2)).toList := by
  cases e with
  | withheld remark => rfl
  | plain key value => rfl
  | detailed key value choices description =>
    change [((nameKey key).value, Value.mapping (ofEntries (details value choices description).entries))] = _
    rw [details_said]
    rfl

theorem key_of_binding (e : VariableEntry) : e.key? = e.binding?.map (·.1) := by
  cases e <;> rfl

end VariableEntry

section Blocks

variable {entries : List VariableEntry}

theorem entry_keys : entries.filterMap (·.key?) = (entries.filterMap (·.binding?)).map (·.1) := by
  rw [List.map_filterMap]
  exact List.filterMap_congr fun e _ => e.key_of_binding

theorem entries_remarks {r : Text} (member : r ∈ (entriesBlock entries).remarks) :
    ∃ remark, .withheld remark ∈ entries ∧ r = "# ".toList ++ remark := by
  induction entries with
  | nil => cases member
  | cons e rest ih =>
    have parts : (entriesBlock (e :: rest)).remarks = e.block.remarks ++ (entriesBlock rest).remarks :=
      remarks_append e.block (entriesBlock rest)
    rw [parts] at member
    rcases List.mem_append.1 member with own | later
    · obtain ⟨remark, rfl, same⟩ := e.block_remarks r own
      exact ⟨remark, List.mem_cons_self, same⟩
    · obtain ⟨remark, among, same⟩ := ih later
      exact ⟨remark, List.mem_cons_of_mem _ among, same⟩

theorem remarks_told (told : ∀ remark, .withheld remark ∈ entries → isTold remark = true) :
    ∀ r ∈ (variableBlock entries).remarks, isTold r = true := by
  have mark : isTold "# ".toList = true := by decide
  unfold variableBlock
  split
  · exact fun _ none => nomatch none
  · split
    · rename_i all
      rw [remarks_append, quiet_remarks]
      change ∀ r ∈ [] ++ (entries.flatMap (·.lines)).map Text.trim, _
      rw [List.nil_append, List.forall_mem_map, List.forall_mem_flatMap]
      intro e member
      have withheld := List.all_eq_true.1 all e member
      cases e with
      | withheld remark =>
        refine List.forall_mem_singleton.2 (List.all_eq_true.2 fun c inside => ?_)
        have whole : isTold ("  # ".toList ++ remark) = true := by
          rw [told_append, told remark member, Bool.and_true]
          decide
        exact List.all_eq_true.1 whole c (Text.trim_by_subset _ _ c inside)
      | plain key value => cases withheld
      | detailed key value choices description => cases withheld
    · change ∀ r ∈ (entriesBlock entries).remarks ++ [], _
      rw [List.append_nil]
      intro r member
      obtain ⟨remark, among, rfl⟩ := entries_remarks member
      rw [told_append, mark, told remark among]
      rfl

theorem entries_said : (entriesBlock entries).entries =
    (entries.filterMap (·.binding?)).map fun e => ((nameKey e.1).value, e.2) := by
  induction entries with
  | nil => rfl
  | cons e rest ih =>
    have parts : (entriesBlock (e :: rest)).entries = e.block.entries ++ (entriesBlock rest).entries :=
      entries_append e.block (entriesBlock rest)
    rw [parts, ih, e.block_entries, List.filterMap_cons]
    cases e.binding? <;> rfl

theorem variable_entries : (variableBlock entries).entries =
    if entries = [] then [] else [(.text "variables", .mapping (ofEntries (entriesBlock entries).entries))] := by
  have name : (bareKey "variables").value = .text "variables" := bare_text "variables" (by decide)
  unfold variableBlock
  cases entries with
  | nil => rfl
  | cons e rest =>
    rw [if_neg (List.cons_ne_nil e rest)]
    simp only [List.isEmpty_cons, Bool.false_eq_true, if_false]
    split
    · rename_i all
      -- The section says an empty mapping, and so do its entries, which set nothing.
      have none : (e :: rest).filterMap (·.binding?) = [] := by
        have keys := withheld_keys (e :: rest) all
        rwa [entry_keys, List.map_eq_nil_iff] at keys
      rw [entries_append, quiet_entries, entries_said, none, Block.entries, name]
      rfl
    · rw [Block.entries, name]
      rfl

/-- The text of lines, each with its end. -/
def linesText (lines : List Text) : Text := lines.flatMap (· ++ ['\n'])

section Read

variable (told : ∀ remark, .withheld remark ∈ entries → isTold remark = true)

include told

theorem section_clean_iff :
    (variableBlock entries).Clean ↔ ∀ k ∈ entries.filterMap (·.key?), (Yaml.key k).length ≤ 1024 := by
  rw [← variable_short]
  refine ⟨fun clean => clean.keys, fun short => ⟨fun r member => ?_, ?_, short⟩⟩
  · exact (told_parts.1 (remarks_told told r member)).1
  · rw [variable_singles]
    exact fun _ none => nomatch none

theorem section_quiet : ∀ r ∈ (variableBlock entries).remarks, isRemark r = true := by
  intro r member
  rw [isRemark, variable_marked entries r member, (told_parts.1 (remarks_told told r member)).2]
  rfl

omit told in
theorem section_text : (variableBlock entries).text = linesText (variableSection entries) :=
  block_text (draws_variables entries)

omit told in
theorem section_markless : (variableBlock entries).text.head? ≠ some '\ufeff' := by
  rw [section_text]
  unfold linesText variableSection
  dsimp only
  split
  · exact fun none => nomatch none
  · split <;> exact fun wrong => absurd (Option.some.inj wrong) (by decide)

theorem section_read (filled : entries ≠ [])
    (short : ∀ k ∈ entries.filterMap (·.key?), (Yaml.key k).length ≤ 1024) : read (linesText (variableSection entries)) = .ok
      (.mapping [(.text "variables", .mapping (ofEntries ((entries.filterMap (·.binding?)).map fun e =>
        ((nameKey e.1).value, e.2))))]) := by
  have drawn := draws_variables entries
  have some : (variableBlock entries).hasEntry = true := by
    unfold variableBlock
    rw [if_neg (by simpa using filled)]
    split
    · rw [has_entry_append]
      rfl
    · rfl
  have value := read_clean _ drawn.fits (section_quiet told) section_markless drawn.sound some
    ((section_clean_iff told).2 short)
  rw [section_text, variable_entries, if_neg filled] at value
  exact value.trans (by rw [entries_said]; rfl)

theorem section_refused (long : ¬ ∀ k ∈ entries.filterMap (·.key?), (Yaml.key k).length ≤ 1024) :
    read (linesText (variableSection entries)) = .error .malformed := by
  rw [← section_text]
  exact read_unclean _ (draws_variables entries).fits (section_quiet told) section_markless
    fun clean => long ((section_clean_iff told).1 clean)

end Read

end Blocks

/-- What a variables section is to say. -/
def planValue (plan : List (Text × Value)) : Value :=
  .mapping [(.text "variables", .mapping (plan.map fun e => (.text e.1, e.2)))]

theorem plan_value_iff (plan : List (Text × Value)) (bindings : Entries) :
    (Except.ok (.mapping [(.text "variables", .mapping bindings)]) : Except Fault Value) = .ok (planValue plan) ↔
      bindings = plan.map fun e => (.text e.1, e.2) := by
  simp [planValue]

/-- Whether an identifier is read as the name that it is: a key may not be longer, and a word for a truth value or for
    null stands for that. -/
def isReadable (name : Text) : Bool := decide (name.length ≤ 1024) && isOwnName name

theorem readable_identifier {name : Text} (identifier : Text.isIdentifier name = true) :
    isReadable name = true ↔ (Yaml.key name).length ≤ 1024 ∧ keepsName name = true := by
  simp [isReadable, keepsName, Yaml.key, identifier]

theorem section_decoded {entries : List VariableEntry} (told : ∀ remark, .withheld remark ∈ entries → isTold remark = true)
    (filled : entries ≠ []) (distinct : ((entries.filterMap (·.binding?)).map (·.1)).Nodup)
    (identifiers : ∀ e ∈ entries.filterMap (·.binding?), Text.isIdentifier e.1 = true) :
    read (linesText (variableSection entries)) = .ok (planValue (entries.filterMap (·.binding?))) ↔
      ∀ e ∈ entries.filterMap (·.binding?), isReadable e.1 = true := by
  have both : (∀ e ∈ entries.filterMap (·.binding?), isReadable e.1 = true) ↔
      (∀ k ∈ entries.filterMap (·.key?), (Yaml.key k).length ≤ 1024) ∧
        ∀ e ∈ entries.filterMap (·.binding?), keepsName e.1 = true := by
    rw [entry_keys, List.forall_mem_map, ← forall₂_and]
    exact forall₂_congr fun e member => readable_identifier (identifiers e member)
  rw [both, ← names_read_iff _ distinct]
  -- A key that is too long keeps the whole section from being read.
  by_cases short : ∀ k ∈ entries.filterMap (·.key?), (Yaml.key k).length ≤ 1024
  · rw [section_read told filled short, plan_value_iff]
    exact (and_iff_right short).symm
  · rw [section_refused told short]
    exact iff_of_false (fun read => nomatch read) fun held => short held.1

section Decoded

variable {policy : ReviewPolicy} {f : FeatureSet} {verdicts : List Verdict} {specs : List VariableSpec}
  {tier : ComplexityTier} {stamp text : Text}

theorem tool_names : ∀ tool ∈ BuildTool.all, ∀ name ∈ tool.assignments.map (·.1), Text.isIdentifier name = true := by
  decide

theorem planned_identifiers (named : ∀ p ∈ f.parameters, Text.isIdentifier p.name = true)
    (keyed : ∀ e ∈ f.environment, Text.isIdentifier e.1 = true) {tool : BuildTool} (known : tool ∈ BuildTool.all) :
    ∀ e ∈ plannedVariables f specs tool, Text.isIdentifier e.1 = true := by
  intro e member
  rcases List.mem_append.1 member with own | needed
  · rcases List.mem_append.1 own with parameter | variable_
    · obtain ⟨p, among, same⟩ := List.mem_map.1 ((planned_parameter_names f _).subset (List.mem_map_of_mem parameter))
      obtain ⟨name, given⟩ := own_parameter_named f among
      rw [← same, name]
      exact named p.2 given
    · have given := ((own_environment_names f).2 e.1
        ((planned_environment_names f _).subset (List.mem_map_of_mem variable_))).2
      obtain ⟨d, among, same⟩ := List.mem_map.1 given
      rw [← same]
      exact keyed d among
  · obtain ⟨d, among, rfl⟩ := List.mem_map.1 needed
    exact tool_names tool known d.1 ((own_tool_names f tool).2 d.1 (List.mem_map_of_mem among)).2.2

/-- The lines of the variables section of a configuration. -/
def variableLines (policy : ReviewPolicy) (f : FeatureSet) (verdicts : List Verdict) (specs : List VariableSpec) : List Text :=
  variableSection (variableEntries f specs (BuildTool.of verdicts) policy.generic)

theorem section_empty_iff {entries : List VariableEntry} : variableSection entries = [] ↔ entries = [] := by
  cases entries with
  | nil => exact iff_of_true rfl rfl
  | cons e rest =>
    refine iff_of_false (fun none => ?_) (List.cons_ne_nil e rest)
    unfold variableSection at none
    simp only [List.isEmpty_cons, Bool.false_eq_true, if_false] at none
    split at none <;> cases none

theorem variables_shown (made : synthesize policy f verdicts specs tier stamp = .ok text)
    (filled : variableLines policy f verdicts specs ≠ []) : Shows text (variableLines policy f verdicts specs) := by
  obtain ⟨limits, -, rfl⟩ := synthesize_document made
  have among : variableLines policy f verdicts specs ∈
      sections policy (JobContext.of f verdicts tier limits.expiry) specs tier limits stamp :=
    List.mem_of_getElem? (i := 4) rfl
  exact section_shown _ limits _ among filled

/-- The variables section is read as what is planned, in its order, when every planned name is readable, and as
    something else when one is not. -/
theorem variables_decoded (named : ∀ p ∈ f.parameters, Text.isIdentifier p.name = true)
    (keyed : ∀ e ∈ f.environment, Text.isIdentifier e.1 = true) (tellable : ∀ v ∈ specs, Tellable policy.generic v)
    (made : synthesize policy f verdicts specs tier stamp = .ok text) :
    (variableLines policy f verdicts specs = [] ∧ plannedVariables f specs (BuildTool.of verdicts) = []) ∨
      (Shows text (variableLines policy f verdicts specs) ∧
        (read (linesText (variableLines policy f verdicts specs)) =
            .ok (planValue (plannedVariables f specs (BuildTool.of verdicts))) ↔
          ∀ e ∈ plannedVariables f specs (BuildTool.of verdicts), isReadable e.1 = true)) := by
  have plan := entries_planned f specs (BuildTool.of verdicts) policy.generic
  by_cases empty : variableEntries f specs (BuildTool.of verdicts) policy.generic = []
  · refine .inl ⟨section_empty_iff.2 empty, ?_⟩
    rw [← plan, empty]
    rfl
  · refine .inr ⟨variables_shown made fun none => empty (section_empty_iff.1 none), ?_⟩
    have told (remark : Text) (member : .withheld remark ∈ variableEntries f specs (BuildTool.of verdicts) policy.generic) :=
      entries_told named keyed tellable member
    have distinct := planned_names_nodup f (BuildTool.of verdicts) specs
    have identifiers := @planned_identifiers f specs named keyed _ (BuildTool.of_mem_all verdicts)
    rw [← plan] at distinct identifiers ⊢
    exact section_decoded told empty distinct identifiers

end Decoded

-- A choice without a default, two names that a parameter shadows, and a variable of the tool.
def stagedFeatures : FeatureSet :=
  { parameters := [{ name := "TARGET", kind := .choice, choices := ["staging", "production"], description := "Deploy target" },
      { name := "PIN", kind := .password, default := "1234" }]
    environment := [("APP_NAME", "orders-$\x7bparams.TARGET\x7d"), ("TARGET", "none"), ("PIN", "0000")] }

def stagedPlan : List (Text × Value) :=
  [("TARGET", .mapping [(.text "value", .text "staging"), (.text "options", .list [.text "staging", .text "production"]),
      (.text "description", .text "Deploy target")]), ("APP_NAME", .text "orders-$\x7bTARGET\x7d"),
      ("MAVEN_OPTS", .text "-Dmaven.repo.local=$CI_PROJECT_DIR/.m2/repository")]

def mavenVerdict : Verdict :=
  { id := "maven-invoker", tier := .native, note := [], hits := [], confidence := 0.9 }

def accountSpecs : List VariableSpec :=
  [{ sourceId := "deploy", key := "DEPLOY", valueKind := .text, masked := true
     protected_ := true, scope := "*", description := [], classifier := Classifier.generic.name }]

theorem staged_variables_decoded : ∃ text,
    synthesize {} stagedFeatures [mavenVerdict] accountSpecs .simple [] = .ok text ∧
      Shows text (variableLines {} stagedFeatures [mavenVerdict] accountSpecs) ∧
      read (linesText (variableLines {} stagedFeatures [mavenVerdict] accountSpecs)) = .ok (planValue stagedPlan) := by
  have done : (synthesize {} stagedFeatures [mavenVerdict] accountSpecs .simple []).toOption.isSome = true := by
    decide +kernel
  cases made : synthesize {} stagedFeatures [mavenVerdict] accountSpecs .simple [] with
  | error fault =>
    rw [made] at done
    cases done
  | ok text =>
    have named : ∀ p ∈ stagedFeatures.parameters, Text.isIdentifier p.name = true := by decide
    have keyed : ∀ e ∈ stagedFeatures.environment, Text.isIdentifier e.1 = true := by decide
    have tellable : ∀ v ∈ accountSpecs, Tellable ({} : ReviewPolicy).generic v :=
      List.forall_mem_singleton.2 ⟨by decide, by decide, fun _ => by decide⟩
    have plan : plannedVariables stagedFeatures accountSpecs (BuildTool.of [mavenVerdict]) = stagedPlan := rfl
    have readable : ∀ e ∈ stagedPlan, isReadable e.1 = true := by decide
    obtain ⟨empty, -⟩ | ⟨shown, decoded⟩ := variables_decoded named keyed tellable made
    · cases empty
    · rw [plan] at decoded
      exact ⟨text, rfl, shown, decoded.2 readable⟩

def switchFeatures : FeatureSet := { environment := [("ON", "1")] }

theorem truth_word_lost : ∃ text, synthesize {} switchFeatures [] [] .simple [] = .ok text ∧
    (∀ e ∈ switchFeatures.environment, Text.isIdentifier e.1 = true) ∧
    Shows text (variableLines {} switchFeatures [] []) ∧
    plannedVariables switchFeatures [] (BuildTool.of []) = [("ON".toList, .text "1")] ∧
    read (linesText (variableLines {} switchFeatures [] [])) =
      .ok (.mapping [(.text "variables", .mapping [(.bool true, .text "1")])]) ∧
    read (linesText (variableLines {} switchFeatures [] [])) ≠
      .ok (planValue (plannedVariables switchFeatures [] (BuildTool.of []))) := by
  have done : (synthesize {} switchFeatures [] [] .simple []).toOption.isSome = true := by decide +kernel
  cases made : synthesize {} switchFeatures [] [] .simple [] with
  | error fault =>
    rw [made] at done
    cases done
  | ok text =>
    have key : (nameKey "ON").value = .bool true := @plain_value_eq "ON" (.bool true) rfl
    have said : read (linesText (variableLines {} switchFeatures [] [])) =
        .ok (.mapping [(.text "variables", .mapping [(.bool true, .text "1")])]) := by
      refine (@section_read [.plain "ON" "1"] ?_ (List.cons_ne_nil _ _) (by decide)).trans ?_
      · intro remark member
        cases List.mem_singleton.1 member
      · change Except.ok (Value.mapping [(_, .mapping [((nameKey "ON").value, _)])]) = _
        rw [key]
    refine ⟨text, rfl, by decide, variables_shown made (List.cons_ne_nil _ _), rfl, said, ?_⟩
    rw [said, ne_eq, plan_value_iff]
    exact fun same => nomatch (List.cons.inj same).1

end PipelineMigration.Configuration
