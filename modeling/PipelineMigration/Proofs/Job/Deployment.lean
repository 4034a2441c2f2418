import PipelineMigration.Job.Core
import PipelineMigration.Proofs.Job.Truth
set_option autoImplicit false

/- Rules of the deployment, block by block. The rules that a block of a stage gives are alternatives of one another, so
   that each is true only where some test of the block holds, however the tests are connected there. -/
namespace PipelineMigration

namespace Feature

/-- The guard that tells a condition of a block. -/
def guardOf (s : Text) (b : Script.Block) (c : Condition) : Guard :=
  { condition := c.kind, expression := c.expression, stage := stageBefore s b.offset }

/-- The guards that one block gives. -/
def blockGuards (s : Text) (b : Script.Block) : List Guard :=
  ((conditionsIn b.body).mergeSort fun x y => x.index ≤ y.index).map (guardOf s b)

theorem guards_eq (s : Text) : guards s = (Script.blocks "when" s).flatMap (blockGuards s) := rfl

end Feature

namespace Job

open Feature (Test Requirement)

section Deployment

/-- The rules that one block gives. -/
def blockRules (s : Text) (b : Script.Block) : List Text := (Feature.blockGuards s b).filterMap guardRule

variable {s : Text} {b : Script.Block} {w : Requirement} {c : JobContext} {rule : Text}

-- A rule of a block takes the place of one of its conditions.
theorem mem_block_rules_iff : rule ∈ blockRules s b ↔
    ∃ c ∈ Feature.conditionsIn b.body, guardRule (Feature.guardOf s b c) = some rule := by
  unfold blockRules Feature.blockGuards
  rw [List.filterMap_map, List.mem_filterMap]
  exact exists_congr fun c => and_congr_left' List.mem_mergeSort

-- The rules of a block before a deployment are rules of the deployment.
theorem block_rules_deploy (features : c.features.guards = Feature.guards s) (listed : b ∈ Script.blocks "when" s)
    (deploys : isDeployStage (Feature.stageBefore s b.offset) = true) (member : rule ∈ blockRules s b) :
    ∃ r ∈ (deployJob c).rules, r.condition = rule := by
  obtain ⟨g, guard, made⟩ := List.mem_filterMap.1 member
  have own : g ∈ deployGuards c := by
    refine List.mem_filter.2 ⟨?_, ?_⟩
    · rw [features, Feature.guards_eq]
      exact List.mem_flatMap.2 ⟨b, listed, guard⟩
    · obtain ⟨condition, -, rfl⟩ := List.mem_map.1 guard
      exact deploys
  have rules : JobRule.mk rule (manual? c) ∈
      (deployGuards c).filterMap fun g => (guardRule g).map fun r => JobRule.mk r (manual? c) :=
    List.mem_filterMap.2 ⟨g, own, by rw [made]; rfl⟩
  refine ⟨⟨rule, manual? c⟩, ?_, rfl⟩
  change _ ∈ deployRules c
  unfold deployRules
  rw [if_neg (by simpa using List.ne_nil_of_mem rules)]
  exact rules

/-- Where a rule of the deployment is true that a block gave, a test of the block holds, its wildcards standing for any
    characters, and so does the block when one of its tests is enough. Where the branch leaves wildcards no slash, both
    hold as the script says them. -/
theorem deployment_narrows (features : c.features.guards = Feature.guards s) (listed : b ∈ Script.blocks "when" s)
    (deploys : isDeployStage (Feature.stageBefore s b.offset) = true) (written : w.Written b.body)
    (plain : ∀ t ∈ w.tests, t.Plain) : ∀ rule ∈ blockRules s b, (∃ r ∈ (deployJob c).rules, r.condition = rule) ∧
      ∀ p, RuleHolds p rule → ∃ t ∈ w.tests, t.holds (globMatches anyCharacter) p = true ∧
        (w.isChoice = true → w.holds (globMatches anyCharacter) p = true) ∧
        (t.isConfined p = true → t.holds branchMatches p = true ∧ (w.isChoice = true → w.holds branchMatches p = true)) := by
  intro rule member
  refine ⟨block_rules_deploy features listed deploys member, fun p held => ?_⟩
  obtain ⟨c, found, made⟩ := mem_block_rules_iff.1 member
  rcases Feature.conditions_said written plain c found with unsaid | ⟨t, own, said⟩
  · unfold guardRule Feature.guardOf at made
    rw [unsaid] at made
    cases made
  · have loosely := test_rule said rfl rfl made held
    refine ⟨t, own, loosely, fun choice => Feature.choice_holds choice own loosely, fun confined => ?_⟩
    have exactly := confined_holds confined loosely
    exact ⟨exactly, fun choice => Feature.choice_holds choice own exactly⟩

end Deployment

section Releases

/-- A script with a block before a deployment. -/
def deploying (body : Text) : Text := "stage('Deploy') \x7bwhen \x7b".toList ++ body ++ "\x7d\x7d".toList

def releaseTest (rest : Requirement) : Requirement := .test (.branch "release/*") rest

def releaseTail : Text := ' ' :: Feature.quoted '\'' "release/*"

def releaseRule : Text := "$CI_COMMIT_BRANCH =~ /^release\\/.*$/"

/-- A pipeline for a branch. -/
def onBranch (branch : String) : PipelineContext := { branch := some branch.toList, source := "push" }

theorem release_written {w : Requirement} {s : Text} (next : s.head?.any Text.isWord = false) (written : w.Written s) :
    (releaseTest w).Written ("branch".toList ++ releaseTail ++ s) := by
  refine .test (.bare (g := [' ']) ?_ nofun (.branch ?_)) next written
  · unfold Feature.Blank
    decide
  · constructor <;> decide

theorem release_plain : (Test.branch "release/*".toList).Plain := Feature.plain_of_absent (by decide +kernel)

theorem change_plain : Test.change.Plain := fun _ _ => nofun

theorem release_rule_holds {p : PipelineContext} {branch : Text} (read : p.branch = some branch)
    (fits : regexMatches "release\\/.*".toList branch = true) : RuleHolds p releaseRule := by
  have whole : releaseRule = '$' :: ("CI_COMMIT_BRANCH".toList ++ (" =~ /^".toList ++ "release\\/.*".toList ++ "$/".toList)) := by
    decide
  have named : IsName "CI_COMMIT_BRANCH".toList := by unfold IsName; decide +kernel
  rw [whole]
  exact .compared named ((branch_value p).trans read) (.regex fits)

theorem rule_given {s rule : Text} {b : Script.Block} (found : ((Feature.conditionsIn b.body).any fun c =>
    guardRule (Feature.guardOf s b c) == some rule) = true) : rule ∈ blockRules s b := by
  obtain ⟨c, member, made⟩ := List.any_eq_true.1 found
  exact mem_block_rules_iff.2 ⟨c, member, beq_iff_eq.1 made⟩

def both : Requirement := releaseTest (.test .change .none)

def bothText : Text := "branch 'release/*';changeRequest()"

theorem both_written : both.Written bothText := by
  have change : Feature.Operands .change "()".toList := .call (g := []) (h := []) (k := []) nofun nofun .change nofun
  have spelled : bothText = "branch".toList ++ releaseTail ++ (';' :: ("changeRequest".toList ++ "()".toList ++ [])) := by
    decide
  rw [spelled]
  exact release_written rfl (.gap (.inr rfl) (.test change rfl .none))

theorem both_plain : ∀ t ∈ both.tests, t.Plain :=
  List.forall_mem_cons.2 ⟨release_plain, List.forall_mem_singleton.2 change_plain⟩

theorem space_blank : Feature.Blank [' '] := by unfold Feature.Blank; decide

def choiceText : Text := "anyOf \x7b".toList ++ bothText ++ "\x7d".toList

theorem choice_written : (Requirement.nested .any both .none).Written choiceText := by
  have spelled : choiceText = "anyOf".toList ++ ([' '] ++ ['\x7b']) ++ bothText ++ ['\x7d'] ++ [] := by decide
  rw [spelled]
  exact .nested space_blank both_written .none

/-- A rule for releases or change requests, in a pipeline for a release. -/
theorem choice_narrowed : ∃ c : JobContext, (∃ r ∈ (deployJob c).rules, r.condition = releaseRule) ∧
    RuleHolds (onBranch "release/1") releaseRule ∧
    (Requirement.nested .any both .none).holds branchMatches (onBranch "release/1") = true := by
  have listed : ⟨23, choiceText⟩ ∈ Script.blocks "when" (deploying choiceText) := by decide +kernel
  have given : releaseRule ∈ blockRules (deploying choiceText) ⟨23, choiceText⟩ := rule_given (by decide +kernel)
  have released : RuleHolds (onBranch "release/1") releaseRule := release_rule_holds rfl (by decide)
  have plain : ∀ t ∈ (Requirement.nested .any both .none).tests, t.Plain := by
    intro t member
    exact both_plain t ((List.mem_append.1 member).resolve_right nofun)
  obtain ⟨kept, narrow⟩ := deployment_narrows (c := .of { guards := Feature.guards (deploying choiceText) } [] .simple none) rfl
    listed (by decide +kernel) choice_written plain releaseRule given
  obtain ⟨t, own, -, -, exactly⟩ := narrow _ released
  have confined : ∀ t ∈ (Requirement.nested .any both .none).tests, t.isConfined (onBranch "release/1") = true := by
    decide
  exact ⟨_, kept, released, (exactly (confined t own)).2 (by decide)⟩

/-- A block before a deployment gives a rule that is true where the block does not hold. -/
def Widens (s : Text) (w : Requirement) : Prop := ∃ b ∈ Script.blocks "when" s,
  isDeployStage (Feature.stageBefore s b.offset) = true ∧ w.Written b.body ∧
    ∃ rule ∈ blockRules s b, ∃ p, RuleHolds p rule ∧ w.holds branchMatches p = false

def otherText : Text := "not \x7bbranch 'release/*'\x7d"

def releaseText : Text := "branch 'release/*'"

theorem release_alone : (releaseTest .none).Written releaseText := by
  have spelled : releaseText = "branch".toList ++ releaseTail ++ [] := by decide
  rw [spelled]
  exact release_written rfl .none

theorem other_written : (Requirement.nested .negation (releaseTest .none) .none).Written otherText := by
  have spelled : otherText = "not".toList ++ ([' '] ++ ['\x7b']) ++ releaseText ++ ['\x7d'] ++ [] := by decide
  rw [spelled]
  exact .nested space_blank release_alone .none

def kindTest : Requirement := .test (.setting "KIND" "changeRequest") .none

def kindText : Text := "environment name: 'KIND', value: 'changeRequest'"

theorem kind_written : kindTest.Written kindText := by
  have literal (value : Text) (plain : ∀ c ∈ value, Text.isQuote c = false) (line : '\n' ∉ value) (unescaped : '\\' ∉ value) :
      Feature.Literal '\'' value := ⟨rfl, plain, line, unescaped, nofun⟩
  have label (name : Text) : Feature.Label name (name ++ [] ++ ':' :: [' ']) := .mk nofun space_blank
  have arguments : Feature.Arguments (.setting "KIND" "changeRequest") _ :=
    .setting (g := []) (label "name") (literal _ (by decide) (by decide) (by decide)) nofun space_blank (label "value")
      (literal _ (by decide) (by decide) (by decide))
  have written := Requirement.Written.test (.bare space_blank nofun arguments) rfl .none
  exact written

/-- A pipeline for a merge request. -/
def onRequest : PipelineContext := { branch := none, source := "merge_request_event" }

theorem kind_rule_holds : RuleHolds onRequest "$CI_PIPELINE_SOURCE == \"merge_request_event\"".toList := by
  have named : IsName "CI_PIPELINE_SOURCE".toList := by unfold IsName; decide
  have same : Compares onRequest "merge_request_event" " == \"merge_request_event\"".toList := .literal (by decide)
  exact .compared named (source_value _) same

/-- Of two tests one is enough, a negation is not seen, a wildcard goes beyond a slash, and a value that reads as a
    condition is taken for one. -/
theorem blocks_widen : Widens (deploying bothText) both ∧
    Widens (deploying otherText) (.nested .negation (releaseTest .none) .none) ∧
    Widens (deploying releaseText) (releaseTest .none) ∧ Widens (deploying kindText) kindTest := by
  have release : RuleHolds (onBranch "release/1") releaseRule := release_rule_holds rfl (by decide)
  have beyond : RuleHolds (onBranch "release/1/2") releaseRule := release_rule_holds rfl (by decide)
  exact ⟨⟨⟨23, bothText⟩, by decide +kernel, by decide +kernel, both_written, releaseRule,
      rule_given (by decide +kernel), _, release, by decide +kernel⟩,
    ⟨⟨23, otherText⟩, by decide +kernel, by decide +kernel, other_written, releaseRule,
      rule_given (by decide +kernel), _, release, by decide +kernel⟩,
    ⟨⟨23, releaseText⟩, by decide +kernel, by decide +kernel, release_alone, releaseRule,
      rule_given (by decide +kernel), _, beyond, by decide +kernel⟩,
    ⟨⟨23, kindText⟩, by decide +kernel, by decide +kernel, kind_written, _,
      rule_given (by decide +kernel), _, kind_rule_holds, by decide +kernel⟩⟩

end Releases

end Job
end PipelineMigration
