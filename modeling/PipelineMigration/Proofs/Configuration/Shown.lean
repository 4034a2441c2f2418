import PipelineMigration.Configuration.Document
import PipelineMigration.Proofs.Outcome
import PipelineMigration.Proofs.Yaml.Page
set_option autoImplicit false

/- What a configuration shows: the lines of every section and job, one right after the other. -/
namespace PipelineMigration

theorem Yaml.infix_joined_lines (pages : List (List Text)) (p : List Text) (member : p ∈ pages) :
    p <:+: joinedLines pages := by
  induction pages with
  | nil => cases member
  | cons q rest ih =>
    cases rest with
    | nil =>
      obtain rfl := List.mem_singleton.1 member
      simp [joinedLines, List.intercalate]
    | cons r rest =>
      rw [joined_lines_cons]
      rcases List.mem_cons.1 member with rfl | later
      · exact (List.prefix_append _ _).isInfix
      · exact (ih later).trans ((List.suffix_cons _ _).trans (List.suffix_append _ _)).isInfix

-- The comments of a job come first in its lines, then its name.
theorem Job.layout_begins (j : Job) :
    ∃ body, Job.layout j = j.comments.map ("# ".toList ++ ·) ++ (Yaml.quote j.name ++ ":".toList) :: body := by
  unfold Job.layout
  simp only [List.append_assoc]
  exact ⟨_, rfl⟩

theorem Job.layout_filled (j : Job) : Job.layout j ≠ [] := by
  obtain ⟨body, whole⟩ := Job.layout_begins j
  rw [whole]
  exact List.append_ne_nil_of_right_ne_nil _ (List.cons_ne_nil _ _)

namespace Configuration

/-- Lines that stand in a text one right after the other. -/
def Shows (text : Text) (lines : List Text) : Prop :=
  ∃ before after : List Text, text = (before ++ lines ++ after).flatMap (· ++ ['\n'])

theorem Shows.part {text : Text} {lines part : List Text} (shown : Shows text lines) (inside : part <:+: lines) :
    Shows text part := by
  obtain ⟨before, after, rfl⟩ := shown
  obtain ⟨front, back, rfl⟩ := inside
  exact ⟨before ++ front, back ++ after, by simp only [List.append_assoc]⟩

theorem Shows.line {text : Text} {lines : List Text} {l : Text} (shown : Shows text lines) (member : l ∈ lines) :
    Shows text [l] := by
  obtain ⟨front, back, rfl⟩ := List.append_of_mem member
  exact shown.part ⟨front, back, by simp⟩

theorem Shows.within {text l : Text} (shown : Shows text [l]) : l <:+: text := by
  obtain ⟨before, after, rfl⟩ := shown
  refine ⟨before.flatMap (· ++ ['\n']), '\n' :: after.flatMap (· ++ ['\n']), ?_⟩
  simp only [List.flatMap_append, List.flatMap_cons, List.append_assoc, List.singleton_append]

theorem document_shows (blocks : List (List Text)) (filled : ∀ b ∈ blocks, b ≠ []) (b : List Text)
    (member : b ∈ blocks) : Shows (document blocks) b := by
  obtain ⟨before, after, whole⟩ := Yaml.infix_joined_lines blocks b member
  refine ⟨before, after, ?_⟩
  rw [whole, ← Yaml.join_pages blocks (List.ne_nil_of_mem member) filled]
  rfl

section Synthesize

variable {policy : ReviewPolicy} {features : FeatureSet} {verdicts : List Verdict} {specs : List VariableSpec}
  {tier : ComplexityTier} {stamp text : Text}

-- A configuration is the document of its blocks.
theorem synthesize_document (made : synthesize policy features verdicts specs tier stamp = .ok text) :
    ∃ limits, Limits.of features = .ok limits ∧
      text = document (blocks policy (JobContext.of features verdicts tier limits.expiry) specs tier limits stamp) := by
  obtain ⟨limits, written, made⟩ := Outcome.bind_ok made
  exact ⟨limits, written, (Except.ok.inj made).symm⟩

variable (c : JobContext) (limits : Limits)

theorem blocks_filled : ∀ b ∈ blocks policy c specs tier limits stamp, b ≠ [] := by
  intro b member
  rcases List.mem_append.1 member with own | job
  · simpa using (List.mem_filter.1 own).2
  · obtain ⟨j, -, rfl⟩ := List.mem_map.1 job
    exact Job.layout_filled j

theorem section_shown (lines : List Text) (member : lines ∈ sections policy c specs tier limits stamp)
    (filled : lines ≠ []) : Shows (document (blocks policy c specs tier limits stamp)) lines :=
  document_shows _ (blocks_filled c limits) lines
    (List.mem_append_left _ (List.mem_filter.2 ⟨member, by simpa using filled⟩))

theorem job_shown (j : Job) (member : j ∈ Job.jobs c policy.threshold) :
    Shows (document (blocks policy c specs tier limits stamp)) (Job.layout j) :=
  document_shows _ (blocks_filled c limits) _ (List.mem_append_right _ (List.mem_map_of_mem member))

end Synthesize

end Configuration
end PipelineMigration
