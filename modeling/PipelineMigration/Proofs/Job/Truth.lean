import PipelineMigration.Keyed
import PipelineMigration.Proofs.Feature.Condition
import PipelineMigration.Proofs.Job.Wildcard
set_option autoImplicit false

/- When a rule of a job is true, and when the conditions of a stage are. A rule that takes the place of a test is true
   only where the test is, its wildcards standing for any characters. -/
namespace PipelineMigration

/-- What a pipeline runs with. -/
structure PipelineContext where
  branch : Option Text
  source : Text
  settings : List (Text × Text) := []

def PipelineContext.value? (p : PipelineContext) (name : Text) : Option Text :=
  if name = "CI_COMMIT_BRANCH".toList then p.branch
  else if name = "CI_PIPELINE_SOURCE".toList then some p.source
  else Keyed.get? name p.settings

namespace Feature

/-- Whether a pipeline passes a test, where branches fit their names as told. -/
def Test.holds (fits : Text → Text → Bool) (p : PipelineContext) : Test → Bool
  | branch glob => p.branch.any (fits glob)
  | setting name value => p.value? name == some value
  | change => p.source == "merge_request_event".toList

/-- Whether the branch has no slashes but those of its name, where the name has wildcards. -/
def Test.isConfined (p : PipelineContext) : Test → Bool
  | branch glob => !Job.isGlob glob || p.branch.all fun branch => branch.count '/' ≤ glob.count '/'
  | _ => true

def Connective.joins : Connective → List Bool → Bool
  | all, truths => truths.all id
  | any, truths => truths.any id
  | negation, truths => !truths.all id

/-- Which tests and connected tests of a block hold. -/
def Requirement.truths (holds : Test → Bool) : Requirement → List Bool
  | none => []
  | test t rest => holds t :: rest.truths holds
  | nested k inner rest => k.joins (inner.truths holds) :: rest.truths holds

/-- Whether a pipeline passes all of a block. -/
def Requirement.holds (fits : Text → Text → Bool) (p : PipelineContext) (w : Requirement) : Bool :=
  (w.truths (Test.holds fits p)).all id

section Choices

/-- How many tests and connected tests a block has. -/
def Requirement.size : Requirement → Nat
  | none => 0
  | test _ rest => rest.size + 1
  | nested _ _ rest => rest.size + 1

/-- Whether every test is enough for the one that it stands in. -/
def Requirement.alternatives : Requirement → Bool
  | none => true
  | test _ rest => rest.alternatives
  | nested .all inner rest => inner.size == 1 && inner.alternatives && rest.alternatives
  | nested .any inner rest => inner.alternatives && rest.alternatives
  | nested .negation _ _ => false

/-- Whether a block is one test, or tests of which one is enough. -/
def Requirement.isChoice (w : Requirement) : Bool := w.size == 1 && w.alternatives

variable {holds : Test → Bool} {w : Requirement}

theorem length_truths (holds : Test → Bool) (w : Requirement) : (w.truths holds).length = w.size := by
  induction w with
  | none => rfl
  | test t rest ih => exact congrArg (· + 1) ih
  | nested k inner rest _ ih => exact congrArg (· + 1) ih

theorem all_of_one {truths : List Bool} (one : truths.length = 1) (held : truths.any id = true) : truths.all id = true := by
  obtain ⟨truth, rfl⟩ := List.length_eq_one_iff.1 one
  simpa using held

-- Of alternatives one holds when a test does.
theorem alternatives_hold (choice : w.alternatives = true) {t : Test} (member : t ∈ w.tests) (held : holds t = true) :
    (w.truths holds).any id = true := by
  induction w with
  | none => cases member
  | test u rest ih =>
    rw [Requirement.truths, List.any_cons, Bool.or_eq_true]
    rcases List.mem_cons.1 member with rfl | member
    · exact .inl held
    · exact .inr (ih choice member)
  | nested k inner rest first second =>
    rw [Requirement.truths, List.any_cons, Bool.or_eq_true]
    cases k with
    | all =>
      simp only [Requirement.alternatives, Bool.and_eq_true, beq_iff_eq] at choice
      rcases List.mem_append.1 member with member | member
      · exact .inl (all_of_one ((length_truths holds inner).trans choice.1.1) (first choice.1.2 member))
      · exact .inr (second choice.2 member)
    | any =>
      simp only [Requirement.alternatives, Bool.and_eq_true] at choice
      rcases List.mem_append.1 member with member | member
      · exact .inl (first choice.1 member)
      · exact .inr (second choice.2 member)
    | negation => cases choice

-- A choice of tests holds when one of them does.
theorem choice_holds {fits : Text → Text → Bool} {p : PipelineContext} (choice : w.isChoice = true) {t : Test}
    (member : t ∈ w.tests) (held : t.holds fits p = true) : w.holds fits p = true := by
  unfold Requirement.isChoice at choice
  rw [Bool.and_eq_true, beq_iff_eq] at choice
  exact all_of_one ((length_truths _ w).trans choice.1) (alternatives_hold choice.2 member held)

end Choices

end Feature

namespace Job

open Feature (Test Connective Requirement)

section Rules

def IsName (name : Text) : Prop := ∀ c ∈ name, Text.isIdentifierRest c = true

/-- Whether a value compares as said: with a literal, with the value of a variable or with a regular expression. -/
inductive Compares (p : PipelineContext) (value : Text) : Text → Prop
  | literal : '"' ∉ value → Compares p value (" == \"".toList ++ value ++ ['"'])
  | other {name : Text} : IsName name → p.value? name = some value → Compares p value (" == $".toList ++ name)
  | regex {regex : Text} : regexMatches regex value = true → Compares p value (" =~ /^".toList ++ regex ++ "$/".toList)

/-- Whether a rule is true: of a variable with any text or with one that compares as said. -/
inductive RuleHolds (p : PipelineContext) : Text → Prop
  | filled {name value : Text} : IsName name → p.value? name = some value → value ≠ [] → RuleHolds p ('$' :: name)
  | compared {name value comparison : Text} : IsName name → p.value? name = some value → Compares p value comparison →
      RuleHolds p ('$' :: (name ++ comparison))

variable {p : PipelineContext} {name value comparison rule : Text}

def Spaceless (s : Text) : Prop := ∀ c ∈ s, (c == ' ') = false

theorem spaceless_of {q : Char → Bool} (apart : q ' ' = false) {s : Text} (all : ∀ c ∈ s, q c = true) : Spaceless s := by
  intro c member
  refine Bool.eq_false_iff.2 fun space => ?_
  have held := all c member
  rw [beq_iff_eq.1 space, apart] at held
  cases held

theorem IsName.spaceless (named : IsName name) : Spaceless name := spaceless_of (by decide) named

theorem Compares.begins (compares : Compares p value comparison) : ∃ rest, comparison = ' ' :: rest := by
  cases compares <;> exact ⟨_, rfl⟩

-- A rule with a comparison compares the variable that it names.
theorem rule_compares (spaceless : Spaceless name) (held : RuleHolds p rule) {rest : Text}
    (whole : rule = '$' :: (name ++ ' ' :: rest)) : ∃ value, p.value? name = some value ∧ Compares p value (' ' :: rest) := by
  cases held with
  | filled named =>
    have space := named.spaceless ' ' (by rw [(List.cons.inj whole).2]; simp)
    cases space
  | compared named read compares =>
    obtain ⟨rest', rfl⟩ := compares.begins
    obtain ⟨rfl, -, rfl⟩ := Text.cut_unique (p := (· == ' ')) (List.cons.inj whole).2 named.spaceless spaceless rfl rfl
    exact ⟨_, read, compares⟩

theorem openings_apart {u v x y : Text} (apart : ¬ u <+: v ∧ ¬ v <+: u) : u ++ x ≠ v ++ y := fun same =>
  (List.prefix_or_prefix_of_prefix (List.prefix_append u x) (same ▸ List.prefix_append v y)).elim apart.1 apart.2

theorem compares_literal {said : Text} (compares : Compares p value comparison)
    (whole : comparison = " == \"".toList ++ said ++ ['"']) : value = said := by
  rw [List.append_assoc] at whole
  cases compares with
  | literal =>
    rw [List.append_assoc] at whole
    exact List.append_cancel_right (List.append_cancel_left whole)
  | other => exact absurd whole (openings_apart (by decide))
  | regex =>
    rw [List.append_assoc] at whole
    exact absurd whole (openings_apart (by decide))

theorem compares_regex {regex : Text} (compares : Compares p value comparison)
    (whole : comparison = " =~ /^".toList ++ regex ++ "$/".toList) : regexMatches regex value = true := by
  rw [List.append_assoc] at whole
  cases compares with
  | literal =>
    rw [List.append_assoc] at whole
    exact absurd whole (openings_apart (by decide))
  | other => exact absurd whole (openings_apart (by decide))
  | regex fits =>
    rw [List.append_assoc] at whole
    obtain rfl := List.append_cancel_right (List.append_cancel_left whole)
    exact fits

-- A rule that compares a variable with a literal is true where it has that value.
theorem literal_rule (spaceless : Spaceless name) (held : RuleHolds p rule)
    (whole : rule = '$' :: (name ++ (" == \"".toList ++ value ++ ['"']))) : p.value? name = some value := by
  obtain ⟨found, read, compares⟩ := rule_compares spaceless held whole
  rw [read, compares_literal compares rfl]

theorem regex_rule {regex : Text} (spaceless : Spaceless name) (held : RuleHolds p rule)
    (whole : rule = '$' :: (name ++ (" =~ /^".toList ++ regex ++ "$/".toList))) :
    ∃ value, p.value? name = some value ∧ regexMatches regex value = true := by
  obtain ⟨found, read, compares⟩ := rule_compares spaceless held whole
  exact ⟨found, read, compares_regex compares rfl⟩

end Rules
section Tests

variable {p : PipelineContext} {t : Test} {rule : Text}

theorem branch_value (p : PipelineContext) : p.value? "CI_COMMIT_BRANCH".toList = p.branch := if_pos rfl

theorem source_value (p : PipelineContext) : p.value? "CI_PIPELINE_SOURCE".toList = some p.source := by
  unfold PipelineContext.value?
  rw [if_neg (by decide), if_pos rfl]

theorem branch_rule {glob : Text} (held : RuleHolds p (branchRule glob)) :
    (Test.branch glob).holds (globMatches anyCharacter) p = true := by
  have spaceless : Spaceless "CI_COMMIT_BRANCH".toList := by unfold Spaceless; decide
  change p.branch.any (globMatches anyCharacter glob) = true
  rw [← branch_value]
  unfold branchRule at held
  split at held
  · have opening : "$CI_COMMIT_BRANCH =~ /^".toList = '$' :: ("CI_COMMIT_BRANCH".toList ++ " =~ /^".toList) := by decide
    rw [opening, List.append_assoc, List.cons_append, List.append_assoc, ← List.append_assoc " =~ /^".toList] at held
    obtain ⟨value, read, fits⟩ := regex_rule spaceless held rfl
    rw [read]
    exact regex_glob fits
  · have opening : "$CI_COMMIT_BRANCH == \"".toList = '$' :: ("CI_COMMIT_BRANCH".toList ++ " == \"".toList) := by decide
    have closing : "\"".toList = ['"'] := rfl
    rw [opening, closing, List.append_assoc, List.cons_append, List.append_assoc, ← List.append_assoc " == \"".toList] at held
    rw [literal_rule spaceless held rfl]
    exact glob_matches_self glob

theorem split_setting {name : Text} (value : Text) (spaceless : Spaceless name) :
    Text.splitOnce " == " (name ++ (" == ".toList ++ value)) = some (name, value) := by
  induction name with
  | nil => rfl
  | cons c name ih =>
    obtain ⟨first, later⟩ := List.forall_mem_cons.1 spaceless
    have other : " == ".toList.isPrefixOf (c :: (name ++ (" == ".toList ++ value))) = false := by
      rw [show " == ".toList = ' ' :: "== ".toList by decide, List.isPrefixOf_cons_cons, Bool.beq_comm, first, Bool.false_and]
    rw [List.cons_append, Text.splitOnce, other, ih later]
    rfl

theorem setting_rule {name value : Text} (words : ∀ c ∈ name, Text.isWord c = true)
    (held : RuleHolds p (variableRule (name ++ " == ".toList ++ value))) : p.value? name = some value := by
  have spaceless : Spaceless name := spaceless_of (by decide) words
  unfold variableRule at held
  rw [List.append_assoc, split_setting value spaceless] at held
  dsimp only [Option.getD_some] at held
  rw [List.append_assoc, List.append_assoc, List.cons_append, ← List.append_assoc " == \"".toList] at held
  exact literal_rule spaceless held rfl

theorem change_rule (held : RuleHolds p "$CI_PIPELINE_SOURCE == \"merge_request_event\"".toList) :
    p.source = "merge_request_event".toList := by
  have spaceless : Spaceless "CI_PIPELINE_SOURCE".toList := by unfold Spaceless; decide
  have whole : "$CI_PIPELINE_SOURCE == \"merge_request_event\"".toList =
      '$' :: ("CI_PIPELINE_SOURCE".toList ++ (" == \"".toList ++ "merge_request_event".toList ++ ['"'])) := by decide
  have read := literal_rule spaceless held whole
  rw [source_value] at read
  exact Option.some.inj read

-- A rule that takes the place of a test is true only where the test holds, its wildcards standing for any
-- characters.
theorem test_rule {t : Test} {c : Feature.Condition} (said : t.Said c) {g : Guard} (kind : g.condition = c.kind)
    (expression : g.expression = c.expression) (made : guardRule g = some rule) (held : RuleHolds p rule) :
    t.holds (globMatches anyCharacter) p = true := by
  unfold guardRule at made
  rw [kind, expression, said.kind, said.expression] at made
  cases t with
  | branch glob =>
    obtain rfl := Option.some.inj made
    exact branch_rule held
  | setting name value =>
    obtain rfl := Option.some.inj made
    exact beq_iff_eq.2 (setting_rule (said.words name value rfl) held)
  | change =>
    obtain rfl := Option.some.inj made
    exact beq_iff_eq.2 (change_rule held)

-- Where the branch has no further slashes it fits the name as the script says it.
theorem confined_holds {t : Test} (confined : t.isConfined p = true) (held : t.holds (globMatches anyCharacter) p = true) :
    t.holds branchMatches p = true := by
  cases t with
  | branch glob =>
    obtain ⟨branch, read, fits⟩ := (Option.any_eq_true _ _).1 held
    change p.branch.any (branchMatches glob) = true
    rw [Test.isConfined, read, Bool.or_eq_true, Bool.not_eq_true', Option.all_some, decide_eq_true_eq] at confined
    rw [read, Option.any_some]
    exact branch_matches_few fits (confined.elim (fun plain => Nat.le_of_eq (by rw [glob_plain plain fits])) id)
  | setting name value => exact held
  | change => exact held

end Tests

end Job
end PipelineMigration
