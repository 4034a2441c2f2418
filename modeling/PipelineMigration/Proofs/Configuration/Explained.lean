import PipelineMigration.Proofs.Configuration.Shown
import PipelineMigration.Proofs.Job.Graph
import PipelineMigration.Proofs.Number.Overflow
import PipelineMigration.Proofs.Text.Trim
set_option autoImplicit false

/- No verdict and no doubt is lost. A verdict is explained by the job that stands for it or else by the
   advisories, never by both and never twice; doubt comes right before the explanation. A planned
   variable of unclear type is pointed out. -/
namespace PipelineMigration.Configuration

/-- The comment on a verdict. -/
def verdictLine (v : Verdict) : Text :=
  "# ".toList ++ v.id ++ " (".toList ++ v.tier.name ++ "): ".toList ++
    (said v.equivalent).getD ((said v.alternative).getD "no direct equivalent".toList) ++ ". ".toList ++ v.note

/-- The comment on a verdict that is not trusted. -/
def doubtLine (v : Verdict) : Text :=
  "# [REVIEW] ".toList ++ v.id ++ " resolved with confidence ".toList ++ Number.fixed 2 v.confidence ++
    "; verify the converted behaviour.".toList

/-- All that is said of a verdict, with doubt where its confidence is below the threshold. -/
def explanation (threshold : Float) (v : Verdict) : List Text :=
  if v.confidence < threshold then [doubtLine v, verdictLine v] else [verdictLine v]

/-- The comment on a planned variable whose type is unclear. -/
def unclearLine (s : VariableSpec) : Text :=
  "# [REVIEW] ".toList ++ s.key ++ ": type could not be inferred for '".toList ++ s.sourceId ++
    "'; confirm masking and variable type.".toList

theorem comment_verdict (v : Verdict) : commentLine (v.id ++ " (".toList ++ v.tier.name ++ "): ".toList ++
    (said v.equivalent).getD ((said v.alternative).getD "no direct equivalent".toList) ++ ". ".toList ++ v.note) =
    verdictLine v := by
  unfold commentLine verdictLine
  simp only [List.append_assoc]

theorem comment_review (s : Text) : commentLine (Job.review s) = "# [REVIEW] ".toList ++ s := rfl

theorem comment_doubt (v : Verdict) : commentLine (Job.review (v.id ++ " resolved with confidence ".toList ++
    Number.fixed 2 v.confidence ++ "; verify the converted behaviour.".toList)) = doubtLine v := by
  rw [comment_review]
  unfold doubtLine
  generalize Number.fixed 2 v.confidence = shown
  simp only [List.append_assoc]

theorem verdict_comments_lines (threshold : Float) (v : Verdict) :
    (Job.verdictComments threshold v).map commentLine = explanation threshold v := by
  unfold Job.verdictComments explanation
  dsimp only
  split
  · rw [List.map_append, List.map_singleton, List.map_singleton, comment_verdict, comment_doubt, List.singleton_append]
  · rw [List.nil_append, List.map_singleton, comment_verdict]

theorem advised_iff (threshold : Float) (inJobs : List Text) (v : Verdict) :
    isAdvised threshold inJobs v = true ↔ v.id ∉ inJobs ∧ (v.id ∉ absorbed ∨ ¬ threshold ≤ v.confidence) := by
  simp only [isAdvised, Bool.and_eq_true, Bool.not_eq_true', Bool.and_eq_false_iff, List.contains_eq_mem,
    decide_eq_false_iff_not]

section Once

variable (threshold : Float) (c : JobContext)

/-- The capabilities that jobs stand for. -/
def jobIds : List Text := (Job.capabilityJobs c threshold).map (·.1)

/-- The verdicts that the advisories explain. -/
def advised : List Verdict := c.verdicts.filter (isAdvised threshold (jobIds threshold c))

/-- The lines of the advisories. -/
def advisoryLines : List Text := advisories c.features c.verdicts threshold (jobIds threshold c)

/-- A verdict is explained in one place of a text: either the advisories explain it, once, and no job
    stands for it, or one job stands for it, with the explanation first of its lines, and the
    advisories leave it out. -/
inductive ExplainedOnce (text : Text) (v : Verdict) : Prop where
  | advisories (shown : Shows text (advisoryLines threshold c))
      (explained : explanation threshold v <:+: advisoryLines threshold c)
      (once : ((advised threshold c).map (·.id)).count v.id = 1) (jobless : v.id ∉ jobIds threshold c)
  | job (j : Job) (shown : Shows text (Job.layout j)) (explained : explanation threshold v <+: Job.layout j)
      (stands : (v.id, j) ∈ Job.capabilityJobs c threshold) (once : (jobIds threshold c).count v.id = 1)
      (unadvised : v.id ∉ (advised threshold c).map (·.id))

variable {threshold c}

theorem ExplainedOnce.shows {text : Text} {v : Verdict} (explained : ExplainedOnce threshold c text v) :
    Shows text (explanation threshold v) := by
  cases explained with
  | advisories shown explained _ _ => exact shown.part explained
  | job j shown explained _ _ _ => exact shown.part explained.isInfix

variable (distinct : (c.verdicts.map (·.id)).Nodup)

include distinct

theorem job_explains {v : Verdict} (member : v ∈ c.verdicts) {j : Job}
    (stands : (v.id, j) ∈ Job.capabilityJobs c threshold) : explanation threshold v <+: Job.layout j := by
  obtain ⟨u, known, earlier, k, -, -, same⟩ := Job.capability_job_inversion c threshold _ _ _ stands
  obtain ⟨id, rfl⟩ := Prod.mk.inj same
  obtain rfl : v = u := List.inj_on_of_nodup_map distinct member known id
  obtain ⟨body, whole⟩ := Job.layout_begins { k with comments := Job.verdictComments threshold v ++ k.comments }
  -- The comments on the verdict were put before the job's own.
  rw [whole, List.map_append, List.append_assoc, show (fun s : Text => "# ".toList ++ s) = commentLine from rfl,
    verdict_comments_lines]
  exact List.prefix_append _ _

omit distinct in
theorem advisories_explain {v : Verdict} (member : v ∈ advised threshold c) :
    explanation threshold v <:+: advisoryLines threshold c := by
  obtain ⟨front, back, split⟩ := List.append_of_mem member
  have lines : (advised threshold c).flatMap (fun v => (Job.verdictComments threshold v).map commentLine) =
      front.flatMap (explanation threshold) ++ (explanation threshold v ++ back.flatMap (explanation threshold)) := by
    simp only [verdict_comments_lines, split, List.flatMap_append, List.flatMap_cons]
  refine List.IsInfix.trans ?_ (List.infix_append _ _ _)
  rw [show c.verdicts.filter (isAdvised threshold (jobIds threshold c)) = advised threshold c from rfl, lines]
  exact ((List.prefix_append _ _).isInfix).trans (List.suffix_append _ _).isInfix

end Once

section Synthesize

variable (policy : ReviewPolicy) (c : JobContext) (specs : List VariableSpec) (tier : ComplexityTier)
  (limits : Limits) (stamp : Text)

theorem advised_count (distinct : (c.verdicts.map (·.id)).Nodup) {v : Verdict}
    (judged : v ∈ advised policy.threshold c) : ((advised policy.threshold c).map (·.id)).count v.id = 1 :=
  List.count_eq_one_of_mem (distinct.sublist (List.filter_sublist.map _)) (List.mem_map_of_mem judged)

theorem verdict_explained_once (distinct : (c.verdicts.map (·.id)).Nodup) {v : Verdict} (member : v ∈ c.verdicts)
    (noted : v.id ∉ absorbed ∨ ¬ policy.threshold ≤ v.confidence) :
    ExplainedOnce policy.threshold c (document (blocks policy c specs tier limits stamp)) v := by
  by_cases stands : v.id ∈ jobIds policy.threshold c
  · obtain ⟨⟨id, j⟩, made, rfl⟩ := List.mem_map.1 stands
    have shown : Shows (document (blocks policy c specs tier limits stamp)) (Job.layout j) :=
      job_shown c limits j (List.mem_append_right _ (List.mem_map_of_mem (f := (·.2)) made))
    refine .job j shown (job_explains distinct member made) made ?_ ?_
    · exact List.count_eq_one_of_mem (distinct.sublist (Job.capability_ids c policy.threshold _ c.verdicts)) stands
    · intro again
      obtain ⟨u, judged, same⟩ := List.mem_map.1 again
      exact ((advised_iff _ _ u).1 (List.mem_filter.1 judged).2).1 (same ▸ stands)
  · have free : isAdvised policy.threshold (jobIds policy.threshold c) v = true := by
      simpa [isAdvised, stands, imp_iff_not_or] using noted
    have judged : v ∈ advised policy.threshold c := List.mem_filter.2 ⟨member, free⟩
    have explained := advisories_explain judged
    -- The section is shown only when it has lines, and an explanation always has.
    have filled : advisoryLines policy.threshold c ≠ [] := by
      intro none
      rw [none, List.infix_nil] at explained
      unfold explanation at explained
      split at explained <;> cases explained
    exact .advisories (section_shown c limits _ (List.mem_of_getElem? (i := 6) rfl) filled) explained
      (advised_count policy c distinct judged) stands

theorem unclear_entry (s : VariableSpec) :
    (VariableEntry.withheld (unclearRemark s)).lines = ["  ".toList ++ unclearLine s] := by
  have marked : commentLine (unclearRemark s) = unclearLine s := by
    unfold unclearRemark unclearLine
    rw [comment_review]
    simp only [List.append_assoc]
  rw [← marked]
  rfl

theorem unclear_line_trimmed (s : VariableSpec) : Text.trim ("  ".toList ++ unclearLine s) = unclearLine s := by
  obtain ⟨front, ends⟩ : ∃ front, unclearLine s = front ++ ['.'] := by
    have dot : "'; confirm masking and variable type.".toList =
        "'; confirm masking and variable type".toList ++ ['.'] := by decide
    unfold unclearLine
    rw [dot, ← List.append_assoc]
    exact ⟨_, rfl⟩
  have left : Text.trimLeftBy Text.isBlank ("  ".toList ++ unclearLine s) = unclearLine s := rfl
  rw [Text.trim, Text.trimBy, left, ends]
  exact Text.trim_right_behind front [] (by decide)

theorem unclear_shown (s : VariableSpec) (member : s ∈ specs) (unclear : s.classifier = policy.generic) :
    Shows (document (blocks policy c specs tier limits stamp)) ["  ".toList ++ unclearLine s] ∨
      Shows (document (blocks policy c specs tier limits stamp)) [unclearLine s] := by
  let entries := variableEntries c.features specs c.tool policy.generic
  have entry : VariableEntry.withheld (unclearRemark s) ∈ entries := by
    have filled : specs.isEmpty = false := List.isEmpty_eq_false_iff.2 (List.ne_nil_of_mem member)
    refine List.mem_append_right _ ?_
    rw [filled]
    refine List.mem_cons_of_mem _ (List.mem_flatMap.2 ⟨s, member, List.mem_append_left _ ?_⟩)
    rw [if_pos (beq_iff_eq.2 unclear)]
    exact List.mem_singleton_self _
  have line : "  ".toList ++ unclearLine s ∈ entries.flatMap (·.lines) :=
    List.mem_flatMap.2 ⟨_, entry, unclear_entry s ▸ List.mem_singleton_self _⟩
  have shown (l : Text) (inside : l ∈ variableSection entries) :
      Shows (document (blocks policy c specs tier limits stamp)) [l] :=
    (section_shown c limits _ (List.mem_of_getElem? (i := 4) rfl) (List.ne_nil_of_mem inside)).line inside
  have some : entries.isEmpty = false := List.isEmpty_eq_false_iff.2 (List.ne_nil_of_mem entry)
  -- The lines stand as they are, or trimmed below an empty mapping when no variable is set.
  unfold variableSection at shown
  simp only [some, Bool.false_eq_true, if_false] at shown
  split at shown
  · exact .inr (shown _ (List.mem_cons_of_mem _ (unclear_line_trimmed s ▸ List.mem_map_of_mem line)))
  · exact .inl (shown _ (List.mem_cons_of_mem _ line))

end Synthesize

-- A capability that a job stands for and one that would be taken care of, both in doubt.
def doubtedVerdicts : List Verdict :=
  [{ id := "terraform", tier := .templated, note := "Plan before apply.", hits := [], confidence := 0.5 },
    { id := "junit", tier := .native, note := "Reports are built in.", hits := [], confidence := 0.4 }]

end PipelineMigration.Configuration
