import PipelineMigration.Proofs.Configuration.Decoded
set_option autoImplicit false

/- Names of secrets. What a script gives under such a name is not written out, but for a parameter that has choices and
   no default: it is no password, no variable is planned for it, and its choices are listed. -/
namespace PipelineMigration

namespace Yaml

section Entries

variable {k v w : Value} {held entries : Entries} {name : Text}

theorem mem_set_entry (member : (.text name, w) ∈ setEntry k v held) :
    (.text name, w) ∈ held ∨ k = .text name ∧ w = v := by
  induction held with
  | nil =>
    obtain ⟨key, value⟩ := Prod.mk.inj (List.mem_singleton.1 member)
    exact .inr ⟨key.symm, value⟩
  | cons e rest ih =>
    obtain ⟨a, b⟩ := e
    by_cases same : a.same k = true
    · rw [setEntry, if_pos same] at member
      rcases List.mem_cons.1 member with here | later
      · obtain ⟨rfl, rfl⟩ := Prod.mk.inj here
        exact .inr ⟨text_of_same same, rfl⟩
      · exact .inl (List.mem_cons_of_mem _ later)
    · rw [setEntry, if_neg same] at member
      rcases List.mem_cons.1 member with here | later
      · exact .inl (here ▸ List.mem_cons_self)
      · exact (ih later).imp_left (List.mem_cons_of_mem _)

theorem mem_of_entries (member : (.text name, w) ∈ ofEntries entries) : (.text name, w) ∈ entries := by
  induction entries using List.reverseRecOn with
  | nil => cases member
  | append_singleton front e ih =>
    have step : ofEntries (front ++ [e]) = setEntry e.1 e.2 (ofEntries front) := by simp [ofEntries]
    rw [step] at member
    rcases mem_set_entry member with early | ⟨key, value⟩
    · exact List.mem_append_left _ (ih early)
    · rw [← key, value]
      exact List.mem_append_right _ (List.mem_singleton_self e)

end Entries

theorem name_of_key {name other : Text} (key : (nameKey other).value = .text name) :
    other = name ∧ keepsName other = true := by
  cases kept : keepsName other with
  | true => exact ⟨Value.text.inj ((key_kept other kept).symm.trans key), rfl⟩
  | false =>
    rcases key_lost other kept with null | ⟨b, truth⟩
    · cases null.symm.trans key
    · cases truth.symm.trans key

-- What is read under a name is what was written under it, when it is read as a name.
theorem mem_names_read_iff {entries : List (Text × Value)} (distinct : (entries.map (·.1)).Nodup) (name : Text)
    (v : Value) :
    (.text name, v) ∈ ofEntries (entries.map fun e => ((nameKey e.1).value, e.2)) ↔
      (name, v) ∈ entries ∧ keepsName name = true := by
  have sound (w : Value) (member : (.text name, w) ∈ ofEntries (entries.map fun e => ((nameKey e.1).value, e.2))) :
      (name, w) ∈ entries ∧ keepsName name = true := by
    obtain ⟨e, among, same⟩ := List.mem_map.1 (mem_of_entries member)
    obtain ⟨key, value⟩ := Prod.mk.inj same
    obtain ⟨rfl, kept⟩ := name_of_key key
    rw [← value]
    exact ⟨among, kept⟩
  refine ⟨sound v, fun ⟨member, kept⟩ => ?_⟩
  have key : .text name ∈ (entries.map fun e => ((nameKey e.1).value, e.2)).map (·.1) :=
    List.mem_map.2 ⟨_, List.mem_map_of_mem member, key_kept name kept⟩
  have alike : (Value.text name).same (.text name) = true := by simp [Value.same, Value.sameScalar]
  obtain ⟨w, among, same⟩ := of_entries_covers _ _ alike key
  -- Whatever is read under the name was written under it, and only this value was.
  obtain ⟨⟨a, u⟩, found, rfl⟩ := List.mem_map.1 among
  obtain rfl : a = .text name := by
    cases a <;> simp_all [Value.same, Value.sameScalar, Value.quotient?, Value.sameBeyond]
  have only : u = v := congrArg Prod.snd (List.inj_on_of_nodup_map distinct (sound u found).1 member rfl)
  rwa [← only]

end Yaml

namespace Configuration

open Yaml

/-- What the lines of a variables section are read to say under a name. -/
def Says (lines : List Text) (name : Text) (v : Value) : Prop :=
  ∃ entries, read (linesText lines) = .ok (.mapping [(.text "variables", .mapping entries)]) ∧ (.text name, v) ∈ entries

theorem section_says_iff {entries : List VariableEntry}
    (told : ∀ remark, .withheld remark ∈ entries → isTold remark = true)
    (distinct : ((entries.filterMap (·.binding?)).map (·.1)).Nodup) (name : Text) (v : Value) :
    Says (variableSection entries) name v ↔ ((name, v) ∈ entries.filterMap (·.binding?) ∧ keepsName name = true) ∧
      ∀ k ∈ entries.filterMap (·.key?), (Yaml.key k).length ≤ 1024 := by
  by_cases empty : entries = []
  · subst empty
    have nothing : read (linesText (variableSection [])) = .ok .null := rfl
    refine iff_of_false (fun ⟨said, same, _⟩ => ?_) fun all => nomatch all.1.1
    cases nothing.symm.trans same
  by_cases short : ∀ k ∈ entries.filterMap (·.key?), (Yaml.key k).length ≤ 1024
  · rw [and_iff_left short, ← mem_names_read_iff distinct, Says, section_read told empty short]
    constructor
    · rintro ⟨said, same, member⟩
      cases same
      exact member
    · exact fun member => ⟨_, rfl, member⟩
  · rw [Says, section_refused told short]
    exact iff_of_false (fun ⟨_, same, _⟩ => nomatch same) fun all => short all.2

/-- What a variable is given when nothing is: an empty text, with a description at most. -/
def Silent (v : Value) : Prop :=
  v = .text [] ∨ ∃ d, v = .mapping [(.text "value", .text []), (.text "description", .text d)]

theorem parameter_silent_iff (p : Parameter) : Silent (parameterValue p) ↔ p.default = [] ∧ p.choices = [] := by
  have plain (none : p.choices = []) : defaultValue p = p.default := by
    unfold defaultValue
    rw [none]
    split
    · rename_i chosen
      exact (List.isEmpty_iff.1 (Bool.and_eq_true_iff.1 chosen).2).symm
    · rfl
  unfold parameterValue Silent
  cases choices : p.choices with
  | nil =>
    rw [and_iff_left rfl, plain choices]
    cases p.description <;> simp
  | cons c rest =>
    refine iff_of_false ?_ fun both => nomatch both.2
    rintro (scalar | ⟨d, detailed⟩)
    · cases scalar
    -- A list of choices stands where a description would.
    · have second := (List.cons.inj (List.cons.inj (Value.mapping.inj detailed)).2).1
      cases (Prod.mk.inj second).2

/-- A parameter that is written out under a name that may be a secret's. -/
def Exposed (f : FeatureSet) (secrets : List Text) (name : Text) : Prop :=
  ∃ p, f.parameters.find? (·.name == name) = some p ∧ p.kind ≠ .password ∧ name ∉ secrets ∧
    p.default = [] ∧ p.choices ≠ []

section Planned

variable {f : FeatureSet} {specs : List VariableSpec} {tool : BuildTool} {name : Text}

theorem own_parameter_iff (p : Parameter) :
    (name, p) ∈ ownParameters f ↔ f.parameters.find? (·.name == name) = some p := by
  have own : (ownParameters f).find? (·.1 == name) =
      (f.parameters.find? (·.name == name)).map fun p => (p.name, p) := by
    rw [ownParameters, Keyed.find_firstOfPairs, List.find?_map]
    rfl
  have apart : ((ownParameters f).map (·.1)).Nodup := Keyed.nodup_keys_firstOfPairs
  have listed := Keyed.find_keyed_iff apart (k := name) (v := (name, p))
  rw [and_iff_left rfl] at listed
  refine listed.symm.trans ?_
  change (ownParameters f).find? (·.1 == name) = some (name, p) ↔ _
  rw [own, Option.map_eq_some_iff]
  constructor
  · rintro ⟨q, found, same⟩
    rwa [(Prod.mk.inj same).2] at found
  · intro found
    have named : p.name = name := by simpa using List.find?_some found
    exact ⟨p, found, by rw [named]⟩

theorem planned_secret_iff (given : name ∈ f.parameters.map (·.name) ∨ name ∈ f.environment.map (·.1))
    (secret : isWithheldName (secretNames specs) name = true) (v : Value) :
    (name, v) ∈ plannedVariables f specs tool ↔ ∃ p, f.parameters.find? (·.name == name) = some p ∧
      isWithheldParameter (secretNames specs) p = false ∧ v = parameterValue p := by
  have parameters : (name, v) ∈ plannedParameters f (secretNames specs) ↔ ∃ p,
      f.parameters.find? (·.name == name) = some p ∧ isWithheldParameter (secretNames specs) p = false ∧
        v = parameterValue p := by
    simp only [plannedParameters, List.mem_map, List.mem_filter, Prod.exists, Prod.mk.injEq]
    constructor
    · rintro ⟨n, p, ⟨member, shown⟩, rfl, rfl⟩
      exact ⟨p, (own_parameter_iff p).1 member, by simpa using shown, rfl⟩
    · rintro ⟨p, found, shown, rfl⟩
      exact ⟨name, p, ⟨(own_parameter_iff p).2 found, by simpa using shown⟩, rfl, rfl⟩
  have environment : (name, v) ∉ plannedEnvironment f (secretNames specs) := by
    intro member
    obtain ⟨e, among, same⟩ := List.mem_map.1 member
    have shown := (List.mem_filter.1 among).2
    rw [(Prod.mk.inj same).1, secret] at shown
    cases shown
  -- The build tool's own variables keep clear of every name that the script gives.
  have tools : (name, v) ∉ (ownToolVariables f tool).map fun e => (e.1, Value.text e.2) := by
    intro member
    obtain ⟨e, among, same⟩ := List.mem_map.1 member
    obtain ⟨unnamed, unset, -⟩ := (own_tool_names f tool).2 e.1 (List.mem_map_of_mem among)
    rw [(Prod.mk.inj same).1] at unnamed unset
    rcases given with named | set
    · refine unnamed (Keyed.mem_keys_firstOfPairs.2 ?_)
      rwa [List.map_map]
    · exact unset set
  rw [← parameters, plannedVariables, List.mem_append, List.mem_append, or_iff_left tools, or_iff_left environment]

theorem planned_exposed_iff (given : name ∈ f.parameters.map (·.name) ∨ name ∈ f.environment.map (·.1))
    (secret : isWithheldName (secretNames specs) name = true) :
    (∃ v, (name, v) ∈ plannedVariables f specs tool ∧ ¬ Silent v) ↔ Exposed f (secretNames specs) name := by
  simp only [planned_secret_iff given secret]
  constructor
  · rintro ⟨_, ⟨p, found, shown, rfl⟩, speaks⟩
    have named : p.name = name := by simpa using List.find?_some found
    rw [isWithheldParameter, named, Bool.or_eq_false_iff, Bool.or_eq_false_iff] at shown
    obtain ⟨⟨kind, unplanned⟩, bare⟩ := shown
    rw [isWithheldName, unplanned, Bool.false_or] at secret
    rw [secret, Bool.and_true, Bool.not_eq_false', List.isEmpty_iff] at bare
    rw [parameter_silent_iff, and_iff_right bare] at speaks
    exact ⟨p, found, by simpa using kind, by simpa using unplanned, bare, speaks⟩
  · rintro ⟨p, found, kind, unplanned, bare, chosen⟩
    have named : p.name = name := by simpa using List.find?_some found
    refine ⟨_, ⟨p, found, ?_, rfl⟩, fun silent => chosen ((parameter_silent_iff p).1 silent).2⟩
    simp [isWithheldParameter, named, kind, unplanned, bare]

end Planned

theorem secret_words_kept {name : Text} (secret : looksSecret name = true) : keepsName name = true := by
  have words : ∀ w ∈ Tag.boolWords ++ Tag.nullWords, looksSecret w = false := by decide
  have own (w : Text) (member : w ∈ Tag.boolWords ++ Tag.nullWords) : name ≠ w := by
    rintro rfl
    rw [words name member] at secret
    cases secret
  rw [keepsName, Bool.or_eq_true]
  exact .inr ((own_name_iff name).2 ⟨fun truth => own name (List.mem_append_left _ truth) rfl,
    fun null => own name (List.mem_append_right _ null) rfl⟩)

theorem exposed_kept {f : FeatureSet} {secrets : List Text} {name : Text} (secret : isWithheldName secrets name = true)
    (exposed : Exposed f secrets name) : keepsName name = true := by
  obtain ⟨-, -, -, unplanned, -⟩ := exposed
  refine secret_words_kept ?_
  simpa [isWithheldName, unplanned] using secret

section Secret

variable {policy : ReviewPolicy} {f : FeatureSet} {verdicts : List Verdict} {specs : List VariableSpec}
  {tier : ComplexityTier} {stamp text : Text} {name : Text}

/-- Under a name of a secret the section has an entry that says something just when a parameter is exposed. Where no
    remark breaks its line, that is also what the section is read to say, unless a key is too long for the reader. -/
theorem secret_name_exposed_iff (made : synthesize policy f verdicts specs tier stamp = .ok text)
    (given : name ∈ f.parameters.map (·.name) ∨ name ∈ f.environment.map (·.1))
    (secret : isWithheldName (secretNames specs) name = true) :
    (variableLines policy f verdicts specs = [] ∨ Shows text (variableLines policy f verdicts specs)) ∧
      ((∃ e ∈ variableEntries f specs (BuildTool.of verdicts) policy.generic,
          ∃ v, e.binding? = some (name, v) ∧ ¬ Silent v) ↔ Exposed f (secretNames specs) name) ∧
      ((∀ remark, .withheld remark ∈ variableEntries f specs (BuildTool.of verdicts) policy.generic →
          isTold remark = true) →
        ((∃ v, Says (variableLines policy f verdicts specs) name v ∧ ¬ Silent v) ↔
          Exposed f (secretNames specs) name ∧
            ∀ k ∈ (variableEntries f specs (BuildTool.of verdicts) policy.generic).filterMap (·.key?),
              (Yaml.key k).length ≤ 1024)) := by
  have plan := entries_planned f specs (BuildTool.of verdicts) policy.generic
  have distinct := planned_names_nodup f (BuildTool.of verdicts) specs
  have exposed := @planned_exposed_iff f specs (BuildTool.of verdicts) name given secret
  rw [← plan] at distinct exposed
  refine ⟨?_, ?_, fun told => ?_⟩
  · by_cases empty : variableLines policy f verdicts specs = []
    · exact .inl empty
    · exact .inr (variables_shown made empty)
  · rw [← exposed]
    constructor
    · rintro ⟨e, member, v, binding, speaks⟩
      exact ⟨v, List.mem_filterMap.2 ⟨e, member, binding⟩, speaks⟩
    · rintro ⟨v, member, speaks⟩
      obtain ⟨e, among, binding⟩ := List.mem_filterMap.1 member
      exact ⟨e, among, v, binding, speaks⟩
  · simp only [variableLines, section_says_iff told distinct]
    constructor
    · rintro ⟨v, ⟨⟨member, -⟩, short⟩, speaks⟩
      exact ⟨exposed.1 ⟨v, member, speaks⟩, short⟩
    -- A name that looks like a secret's is no truth word, so it is read as it is written.
    · rintro ⟨shown, short⟩
      obtain ⟨v, member, speaks⟩ := exposed.2 shown
      exact ⟨v, ⟨⟨member, exposed_kept secret shown⟩, short⟩, speaks⟩

end Secret

-- A choice with a default, a choice for a planned variable, and an environment entry.
def sealedFeatures : FeatureSet :=
  { parameters := [{ name := "API_TOKEN", kind := .choice, default := "t0k3n", choices := ["t0k3n", "0ld"] },
      { name := "DEPLOY", kind := .choice, choices := ["s3cret"] }]
    environment := [("DB_PASSWORD", "hunter2")] }

theorem sealed_token_unsaid : ∃ text, synthesize {} sealedFeatures [] accountSpecs .simple [] = .ok text ∧
    "API_TOKEN".toList ∈ sealedFeatures.parameters.map (·.name) ∧
    isWithheldName (secretNames accountSpecs) "API_TOKEN" = true ∧
    Shows text (variableLines {} sealedFeatures [] accountSpecs) ∧
    (∀ remark, .withheld remark ∈ variableEntries sealedFeatures accountSpecs (BuildTool.of [])
      ({} : ReviewPolicy).generic → isTold remark = true) ∧
    ¬ ∃ v, Says (variableLines {} sealedFeatures [] accountSpecs) "API_TOKEN" v ∧ ¬ Silent v := by
  have done : (synthesize {} sealedFeatures [] accountSpecs .simple []).toOption.isSome = true := by decide +kernel
  obtain ⟨text, made⟩ := Outcome.done_of_isSome done
  have named : ∀ p ∈ sealedFeatures.parameters, Text.isIdentifier p.name = true := by decide
  have keyed : ∀ e ∈ sealedFeatures.environment, Text.isIdentifier e.1 = true := by decide
  have tellable : ∀ v ∈ accountSpecs, Tellable ({} : ReviewPolicy).generic v :=
    List.forall_mem_singleton.2 ⟨by decide, by decide, fun _ => by decide⟩
  have told := fun remark => @entries_told sealedFeatures accountSpecs (BuildTool.of []) _ named keyed tellable remark
  have given : "API_TOKEN".toList ∈ sealedFeatures.parameters.map (·.name) := by decide
  have secret : isWithheldName (secretNames accountSpecs) "API_TOKEN" = true := by decide
  obtain ⟨shown, -, said⟩ := secret_name_exposed_iff made (.inl given) secret
  refine ⟨text, made, given, secret, shown.resolve_left (List.cons_ne_nil _ _), told, fun speaks => ?_⟩
  obtain ⟨⟨p, found, -, -, bare, -⟩, -⟩ := (said told).1 speaks
  cases found
  cases bare

def leakyFeatures : FeatureSet :=
  { parameters := [{ name := "API_TOKEN", kind := .choice, choices := ["t0k3n"] }] }

theorem choice_token_said : ∃ text, synthesize {} leakyFeatures [] [] .simple [] = .ok text ∧
    Shows text (variableLines {} leakyFeatures [] []) ∧ looksSecret "API_TOKEN" = true ∧
    Says (variableLines {} leakyFeatures [] []) "API_TOKEN"
      (.mapping [(.text "value", .text "t0k3n"), (.text "options", .list [.text "t0k3n"])]) := by
  have done : (synthesize {} leakyFeatures [] [] .simple []).toOption.isSome = true := by decide +kernel
  obtain ⟨text, made⟩ := Outcome.done_of_isSome done
  refine ⟨text, made, variables_shown made (List.cons_ne_nil _ _), by decide, ?_⟩
  have plan := entries_planned leakyFeatures [] (BuildTool.of []) ({} : ReviewPolicy).generic
  have distinct := planned_names_nodup leakyFeatures (BuildTool.of []) []
  rw [← plan] at distinct
  refine (section_says_iff (fun remark member => ?_) distinct _ _).2 ⟨⟨?_, by decide⟩, by decide⟩
  · cases List.mem_singleton.1 member
  · rw [plan]
    exact List.mem_singleton_self _

end Configuration
end PipelineMigration
