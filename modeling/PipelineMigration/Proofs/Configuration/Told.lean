import PipelineMigration.Configuration.Variable
import PipelineMigration.Proofs.Keyed
import PipelineMigration.Proofs.Yaml.Parts
import PipelineMigration.Yaml.Value
set_option autoImplicit false

/- The variables that a configuration is to set: the parameters whose values are not withheld, then such environment
   entries as no parameter shadows, then what the build tool needs and neither names. -/
namespace PipelineMigration.Configuration

open Yaml

/-- Whether the value of a parameter stays out of the configuration. -/
def isWithheldParameter (secrets : List Text) (p : Parameter) : Bool :=
  p.kind == .password || secrets.contains p.name || (!p.default.isEmpty && looksSecret p.name)

/-- Whether the value of an environment entry stays out of it. -/
def isWithheldName (secrets : List Text) (name : Text) : Bool := secrets.contains name || looksSecret name

/-- What a parameter is to say: its value alone, or with the choices and the description that it has. -/
def parameterValue (p : Parameter) : Value :=
  let choices := if p.choices.isEmpty then [] else [(.text "options", .list (p.choices.map .text))]
  let description := if p.description.isEmpty then [] else [(.text "description", .text p.description)]
  if p.choices.isEmpty && p.description.isEmpty then .text (defaultValue p)
  else .mapping ((.text "value", .text (defaultValue p)) :: choices ++ description)

def plannedParameters (f : FeatureSet) (secrets : List Text) : List (Text × Value) :=
  ((ownParameters f).filter fun e => !isWithheldParameter secrets e.2).map fun e => (e.1, parameterValue e.2)

def plannedEnvironment (f : FeatureSet) (secrets : List Text) : List (Text × Value) :=
  ((ownEnvironment f).filter fun e => !isWithheldName secrets e.1).map fun e => (e.1, .text (shellValue e.2))

def plannedVariables (f : FeatureSet) (specs : List VariableSpec) (tool : BuildTool) : List (Text × Value) :=
  plannedParameters f (secretNames specs) ++ plannedEnvironment f (secretNames specs) ++
    (ownToolVariables f tool).map fun e => (e.1, .text e.2)

section Names

variable (f : FeatureSet) (secrets : List Text) (tool : BuildTool)

theorem own_parameter_named {e : Text × Parameter} (member : e ∈ ownParameters f) :
    e.1 = e.2.name ∧ e.2 ∈ f.parameters := by
  obtain ⟨p, among, rfl⟩ := List.mem_map.1 (Keyed.mem_of_mem_firstOfPairs member)
  exact ⟨rfl, among⟩

theorem planned_parameter_names :
    ((plannedParameters f secrets).map (·.1)).Sublist ((ownParameters f).map (·.1)) := by
  unfold plannedParameters
  rw [List.map_map]
  exact List.filter_sublist.map _

theorem planned_environment_names :
    ((plannedEnvironment f secrets).map (·.1)).Sublist ((ownEnvironment f).map (·.1)) := by
  unfold plannedEnvironment
  rw [List.map_map]
  exact List.filter_sublist.map _

theorem own_environment_names : ((ownEnvironment f).map (·.1)).Nodup ∧
    ∀ name ∈ (ownEnvironment f).map (·.1), name ∉ (ownParameters f).map (·.1) ∧ name ∈ f.environment.map (·.1) := by
  refine ⟨Keyed.nodup_keys_firstOfPairs.sublist (List.filter_sublist.map _), ?_⟩
  rw [List.forall_mem_map]
  intro e member
  obtain ⟨first, unshadowed⟩ := List.mem_filter.1 member
  change (!Keyed.has e.1 (ownParameters f)) = true at unshadowed
  refine ⟨fun shadowed => ?_, List.mem_map_of_mem (Keyed.mem_of_mem_firstOfPairs first)⟩
  rw [Keyed.has_eq_true_iff.2 shadowed] at unshadowed
  cases unshadowed

theorem own_tool_names : ((ownToolVariables f tool).map (·.1)).Nodup ∧
    ∀ name ∈ (ownToolVariables f tool).map (·.1), name ∉ (ownParameters f).map (·.1) ∧
      name ∉ f.environment.map (·.1) ∧ name ∈ tool.assignments.map (·.1) := by
  refine ⟨Keyed.nodup_keys_firstOfPairs.sublist (List.filter_sublist.map _), ?_⟩
  rw [List.forall_mem_map]
  intro e member
  obtain ⟨first, unshadowed⟩ := List.mem_filter.1 member
  obtain ⟨parameters, environment⟩ := Bool.and_eq_true_iff.1 unshadowed
  refine ⟨fun shadowed => ?_, fun shadowed => ?_, List.mem_map_of_mem (Keyed.mem_of_mem_firstOfPairs first)⟩
  · rw [Keyed.has_eq_true_iff.2 shadowed] at parameters
    cases parameters
  · rw [Keyed.has_eq_true_iff.2 shadowed] at environment
    cases environment

theorem planned_names_nodup (specs : List VariableSpec) :
    ((plannedVariables f specs tool).map (·.1)).Nodup := by
  have parameters := planned_parameter_names f (secretNames specs)
  have environment := planned_environment_names f (secretNames specs)
  have own := own_environment_names f
  have tools := own_tool_names f tool
  have last : ((ownToolVariables f tool).map fun e => (e.1, Value.text e.2)).map (·.1) =
      (ownToolVariables f tool).map (·.1) := by
    rw [List.map_map]
    rfl
  unfold plannedVariables
  rw [List.map_append, List.map_append, last]
  refine List.nodup_append.2 ⟨List.nodup_append.2 ⟨?_, ?_, ?_⟩, tools.1, ?_⟩
  · exact Keyed.nodup_keys_firstOfPairs.sublist parameters
  · exact own.1.sublist environment
  · rintro name first _ later rfl
    exact (own.2 name (environment.subset later)).1 (parameters.subset first)
  · rintro name early _ later rfl
    rcases List.mem_append.1 early with parameter | variable_
    · exact (tools.2 name later).1 (parameters.subset parameter)
    · exact (tools.2 name later).2.1 (own.2 name (environment.subset variable_)).2

end Names

namespace VariableEntry

/-- The variable that an entry sets. -/
def binding? : VariableEntry → Option (Text × Value)
  | withheld _ => none
  | plain key value => some (key, .text value)
  | detailed key value choices description => some (key, .mapping ((.text "value", .text value) ::
      (if choices.isEmpty then [] else [(.text "options", .list (choices.map .text))]) ++
      if description.isEmpty then [] else [(.text "description", .text description)]))

end VariableEntry

section Bindings

theorem parameter_binding (secrets : List Text) (p : Parameter) : (parameterEntry secrets p).binding? =
    if isWithheldParameter secrets p then none else some (p.name, parameterValue p) := by
  unfold parameterEntry isWithheldParameter parameterValue
  by_cases secret : (p.kind == .password || secrets.contains p.name) = true
  · rw [if_pos secret, secret, Bool.true_or]
    rfl
  · rw [if_neg secret, Bool.eq_false_iff.2 secret, Bool.false_or]
    by_cases named : (!p.default.isEmpty && looksSecret p.name) = true
    · rw [if_pos named, named]
      rfl
    · rw [if_neg named, Bool.eq_false_iff.2 named, Bool.and_comm p.choices.isEmpty]
      dsimp only
      split <;> rfl

theorem environment_binding (secrets : List Text) (name value : Text) : (environmentEntry secrets name value).binding? =
    if isWithheldName secrets name then none else some (name, .text (shellValue value)) := by
  unfold environmentEntry isWithheldName
  cases secrets.contains name with
  | true => rfl
  | false =>
    cases looksSecret name with
    | true => rfl
    | false => rfl

theorem filter_bound {α β γ : Type} (entries : List α) (entry : α → β) (bound : β → Option γ) (out : α → Bool)
    (own : α → γ) (each : ∀ a ∈ entries, bound (entry a) = if out a then none else some (own a)) :
    (entries.map entry).filterMap bound = (entries.filter fun a => !out a).map own := by
  induction entries with
  | nil => rfl
  | cons a rest ih =>
    obtain ⟨here, others⟩ := List.forall_mem_cons.1 each
    rw [List.map_cons, List.filterMap_cons, here, ih others, List.filter_cons]
    cases out a <;> rfl

theorem secrets_unbound (generic : Text) (specs : List VariableSpec) :
    ((VariableEntry.withheld secretsRemark) :: specs.flatMap (secretEntries generic)).filterMap (·.binding?) = [] := by
  rw [List.filterMap_eq_nil_iff, List.forall_mem_cons, List.forall_mem_flatMap]
  refine ⟨rfl, fun v _ e member => ?_⟩
  rcases List.mem_append.1 member with unclear | creation
  · split at unclear
    · rw [List.mem_singleton.1 unclear]
      rfl
    · cases unclear
  · rw [List.mem_singleton.1 creation]
    rfl

theorem entries_planned (f : FeatureSet) (specs : List VariableSpec) (tool : BuildTool) (generic : Text) :
    (variableEntries f specs tool generic).filterMap (·.binding?) = plannedVariables f specs tool := by
  have parameters := filter_bound (ownParameters f) (fun e => parameterEntry (secretNames specs) e.2) (·.binding?)
    (fun e => isWithheldParameter (secretNames specs) e.2) (fun e => (e.1, parameterValue e.2)) fun e member => by
      rw [parameter_binding, (own_parameter_named f member).1]
  have environment := filter_bound (ownEnvironment f) (fun e => environmentEntry (secretNames specs) e.1 e.2)
    (·.binding?) (fun e => isWithheldName (secretNames specs) e.1) (fun e => (e.1, .text (shellValue e.2)))
    fun e _ => environment_binding _ e.1 e.2
  have tools : ((ownToolVariables f tool).map fun e => VariableEntry.plain e.1 e.2).filterMap (·.binding?) =
      (ownToolVariables f tool).map fun e => (e.1, .text e.2) := by
    rw [List.filterMap_map, ← List.filterMap_eq_map]
    rfl
  have secrets : (if specs.isEmpty then []
      else .withheld secretsRemark :: specs.flatMap (secretEntries generic) : List VariableEntry).filterMap
        (·.binding?) = [] := by
    split
    · rfl
    · exact secrets_unbound generic specs
  unfold variableEntries sourceEntries
  rw [List.filterMap_append, List.filterMap_append, List.filterMap_append, parameters, environment, tools, secrets,
    List.append_nil]
  rfl

end Bindings

end PipelineMigration.Configuration

/- Texts that the comments of the variables section can tell without breaking a line or the document. -/
namespace PipelineMigration.Configuration

open Yaml

/-- Whether a comment can tell a text: it stays on its line, and a document may hold its characters. -/
def isTold (s : Text) : Bool := s.all fun c => isAllowed c && !isBreak c

theorem told_append (a b : Text) : isTold (a ++ b) = (isTold a && isTold b) := List.all_append

theorem told_literal {s : String} {l : List Char} (same : s = String.ofList l)
    (told : l.all (fun c => isAllowed c && !isBreak c) = true) : isTold s.toList = true := by
  rw [same, String.toList_ofList]
  exact told

theorem told_parts {s : Text} : isTold s = true ↔ s.all isAllowed = true ∧ s.all (fun c => !isBreak c) = true := by
  simp only [isTold, List.all_eq_true, Bool.and_eq_true]
  exact forall₂_and

theorem told_identifier {name : Text} (identifier : Text.isIdentifier name = true) : isTold name = true := by
  obtain ⟨-, chars⟩ := identifier_chars name identifier
  refine told_parts.2 ⟨name_allowed name chars, List.all_eq_true.2 fun c member => ?_⟩
  have gap := (identifier_char c (chars c member)).1
  rw [isGap, Bool.or_eq_false_iff] at gap
  rw [gap.2]
  rfl

theorem told_placeholder (kind : ValueKind) : isTold kind.placeholder = true := by
  cases kind <;> decide

theorem told_value : isTold ValueKind.valuePlaceholder = true := told_placeholder .text

theorem told_review (s : Text) : isTold (Job.review s) = isTold s := by
  have marker : isTold (Job.reviewMarker ++ [' ']) = true := by decide
  have parts : Job.review s = (Job.reviewMarker ++ [' ']) ++ s := by simp [Job.review]
  rw [parts, told_append, marker, Bool.true_and]

theorem told_colon : isTold ": ".toList = true := by decide
theorem told_opening : isTold " (".toList = true := by decide

theorem password_remark_told {name : Text} (told : isTold name = true) : isTold (passwordRemark name) = true := by
  have ending : isTold " (password parameter, define as a masked variable)".toList = true := told_literal rfl (by decide)
  simp only [passwordRemark, told_append, told, told_colon, told_value, ending, Bool.and_self]

theorem removed_remark_told {what name : Text} (told : isTold name = true) (said : isTold what = true) :
    isTold (removedRemark what name) = true := by
  have ending : isTold " removed from the Jenkinsfile; define it as a masked variable)".toList = true :=
    told_literal rfl (by decide)
  simp only [removedRemark, told_review, told_append, told, said, told_colon, told_opening, told_value, ending, Bool.and_self]

theorem provided_remark_told {name : Text} (told : isTold name = true) : isTold (providedRemark name) = true := by
  have ending : isTold ": provided as a CI/CD variable (see below)".toList = true := told_literal rfl (by decide)
  simp only [providedRemark, told_append, told, ending, Bool.and_self]

theorem parameter_remark_told {secrets : List Text} {p : Parameter} {remark : Text} (named : isTold p.name = true)
    (withheld : parameterEntry secrets p = .withheld remark) : isTold remark = true := by
  unfold parameterEntry at withheld
  split at withheld
  · rw [← VariableEntry.withheld.inj withheld]
    exact password_remark_told named
  · split at withheld
    · rw [← VariableEntry.withheld.inj withheld]
      exact removed_remark_told named (by decide)
    · split at withheld <;> cases withheld

theorem environment_remark_told {secrets : List Text} {name value remark : Text} (named : isTold name = true)
    (withheld : environmentEntry secrets name value = .withheld remark) : isTold remark = true := by
  unfold environmentEntry at withheld
  split at withheld
  · rw [← VariableEntry.withheld.inj withheld]
    exact provided_remark_told named
  · split at withheld
    · rw [← VariableEntry.withheld.inj withheld]
      exact removed_remark_told named (by decide)
    · cases withheld

/-- A planned variable that comments can tell; what it stands for is told only when its kind is unclear. -/
structure Tellable (generic : Text) (v : VariableSpec) : Prop where
  key : isTold v.key = true
  scope : isTold v.scope = true
  source : v.classifier = generic → isTold v.sourceId = true

theorem flags_told (v : VariableSpec) : isTold v.flags = true := by
  unfold VariableSpec.flags
  cases v.valueKind <;> cases v.masked <;> cases v.protected_ <;> decide

theorem secret_remark_told {generic : Text} {v : VariableSpec} (tellable : Tellable generic v) {remark : Text}
    (member : .withheld remark ∈ secretEntries generic v) : isTold remark = true := by
  rcases List.mem_append.1 member with unclear | creation
  · split at unclear
    · rename_i kind
      have front : isTold ": type could not be inferred for '".toList = true := told_literal rfl (by decide)
      have back : isTold "'; confirm masking and variable type.".toList = true := told_literal rfl (by decide)
      have source := tellable.source (beq_iff_eq.1 kind)
      rw [VariableEntry.withheld.inj (List.mem_singleton.1 unclear)]
      simp only [unclearRemark, told_review, told_append, tellable.key, source, front, back, Bool.and_self]
    · cases unclear
  · have placeholder : isTold v.placeholder = true := told_placeholder v.valueKind
    have scope : isTold ", scope ".toList = true := by decide
    have closing : isTold ")".toList = true := by decide
    rw [VariableEntry.withheld.inj (List.mem_singleton.1 creation)]
    simp only [creationRemark, told_append, tellable.key, tellable.scope, flags_told, told_colon, told_opening,
      placeholder, scope, closing, Bool.and_self]

theorem entries_told {f : FeatureSet} {specs : List VariableSpec} {tool : BuildTool} {generic : Text}
    (named : ∀ p ∈ f.parameters, Text.isIdentifier p.name = true)
    (keyed : ∀ e ∈ f.environment, Text.isIdentifier e.1 = true) (tellable : ∀ v ∈ specs, Tellable generic v)
    {remark : Text} (member : .withheld remark ∈ variableEntries f specs tool generic) : isTold remark = true := by
  rcases List.mem_append.1 member with source | secret
  · rcases List.mem_append.1 source with own | tools
    · rcases List.mem_append.1 own with parameter | variable_
      · obtain ⟨e, among, withheld⟩ := List.mem_map.1 parameter
        exact parameter_remark_told (told_identifier (named e.2 (own_parameter_named f among).2)) withheld
      · obtain ⟨e, among, withheld⟩ := List.mem_map.1 variable_
        have given := Keyed.mem_of_mem_firstOfPairs (List.mem_filter.1 among).1
        exact environment_remark_told (told_identifier (keyed e given)) withheld
    · obtain ⟨e, -, plain⟩ := List.mem_map.1 tools
      cases plain
  · split at secret
    · cases secret
    · rcases List.mem_cons.1 secret with same | own
      · rw [VariableEntry.withheld.inj same]
        exact told_literal rfl (by decide)
      · obtain ⟨v, among, entry⟩ := List.mem_flatMap.1 own
        exact secret_remark_told (tellable v among) entry

end PipelineMigration.Configuration
