import PipelineMigration.Migration
import PipelineMigration.Proofs.Capability.Said
import PipelineMigration.Proofs.Configuration.Valid
import PipelineMigration.Proofs.Feature.Source
set_option autoImplicit false

/- When the configuration of a migration is found valid. -/
namespace PipelineMigration.Configuration

open Yaml Outcome

section Limits

theorem write_if_number {wanted : Bool} {n : Int} {t : Option Text} (done : writeIf wanted n = .ok t)
    (nonneg : 0 ≤ n) : ∀ s ∈ t, wanted = true ∧ ∃ k : Nat, n = k ∧ s = Text.ofNat k := by
  intro s said
  obtain ⟨k, rfl⟩ := Int.eq_ofNat_of_zero_le nonneg
  unfold writeIf at done
  split at done
  · rename_i want
    obtain ⟨u, written, rfl⟩ := map_ok done
    unfold Number.writeInteger at written
    split at written
    · cases written
    · exact ⟨want, k, rfl, (Option.some.inj said).symm.trans (Except.ok.inj written).symm⟩
  · rw [← Except.ok.inj done] at said
    cases said

theorem days_nonneg (r : Retention) (kept : 0 ≤ r.daysToKeep ∧ 0 ≤ r.artifactDaysToKeep) : 0 ≤ daysKept r := by
  unfold daysKept
  split
  · exact kept.1
  · exact kept.2

-- The limits of sound features are numbers with their units.
theorem limits_plain {f : FeatureSet} {limits : Limits} (sound : f.Sound) (written : Limits.of f = .ok limits) :
    limits.Plain := by
  obtain ⟨t, timeout, written⟩ := bind_ok written
  obtain ⟨x, excess, written⟩ := bind_ok written
  obtain ⟨r, retry, written⟩ := bind_ok written
  obtain ⟨e, expiry, written⟩ := bind_ok written
  rw [← Except.ok.inj written]
  refine ⟨fun s said => ?_, fun s said => ?_, fun s said => ?_⟩
  · obtain ⟨-, k, -, rfl⟩ := write_if_number timeout sound.timeout s said
    exact plain_leaf_minutes k
  · have least : 0 ≤ min f.retryCount maxRetry := Int.le_min.2 ⟨sound.retry, by decide⟩
    obtain ⟨wanted, k, count, rfl⟩ := write_if_number retry least s said
    have bound : k = 1 ∨ k = 2 := by
      have nonzero : f.retryCount ≠ 0 := by simpa using wanted
      have nonneg := sound.retry
      unfold maxRetry at count
      omega
    rcases bound with rfl | rfl
    · decide
    · decide
  · obtain ⟨u, kept, rfl⟩ := Option.map_eq_some_iff.1 said
    obtain ⟨-, k, -, rfl⟩ := write_if_number expiry (days_nonneg f.retention sound.kept) u kept
    unfold dayUnit
    split
    · exact plain_leaf_days k " day" (.inl rfl)
    · exact plain_leaf_days k " days" (.inr rfl)

end Limits

end PipelineMigration.Configuration

namespace PipelineMigration.Migration

open PipelineMigration.Configuration Yaml Outcome

-- The parts of a configuration that sound features and the verdicts on hits give are known.
theorem parts_known {f : FeatureSet} {limits : Limits} (sound : f.Sound) (written : Limits.of f = .ok limits)
    (hits : List CapabilityHit) (tier : ComplexityTier) :
    Known (JobContext.of f (Capability.resolve {} hits) tier limits.expiry) limits :=
  ⟨JobContext.of_sound _ _ _ _, Capability.resolve_templates hits, limits_plain sound written⟩

theorem part_names_distinct {f : FeatureSet} (sound : f.Sound) (hits : List CapabilityHit) (tier : ComplexityTier)
    (expiry : Option Text) (threshold : Float) :
    ((Job.jobs (JobContext.of f (Capability.resolve {} hits) tier expiry) threshold).map (·.name)).Nodup :=
  Job.job_names_nodup _ threshold sound.distinct sound.known (Capability.resolve_ids_nodup {} hits)

/-- The limits as they are written; a migration is made only when they can be. -/
def limits (m : Migration) : Limits := (Limits.of m.extraction.features).toOption.getD ⟨none, none, none, none⟩

def context (m : Migration) : JobContext :=
  JobContext.of m.extraction.features m.verdicts m.tier m.limits.expiry

/-- The jobs of the configuration. -/
def jobs (m : Migration) : List Job := Job.jobs m.context ({} : ReviewPolicy).threshold

/-- The lines of the configuration that are comments; a line of these pieces can hold a line break. -/
def commentLines (m : Migration) (stamp : Text) : List Text :=
  (blocks {} m.context m.specs m.tier m.limits stamp).flatten.filter isCommentLine

/-- The conditions of rules, which stand in single quotes. -/
def ruleConditions (m : Migration) : List Text := m.jobs.flatMap fun j => j.rules.map (·.condition)

/-- The keys as they are written: of variables, of jobs, and of the variables of jobs. -/
def keyTexts (m : Migration) : List Text := writtenKeys {} m.context m.specs

section Translate

variable {script : Text} {options : PlanOptions} {stamp : Text} {m : Migration}
  (made : translate {} script options stamp = .ok m)

include made

-- What a migration is put together from.
theorem translate_parts : (∃ excluded, Extraction.of excluded script = .ok m.extraction) ∧
    (∃ hits, m.verdicts = Capability.resolve {} hits) ∧
    Configuration.synthesize {} m.extraction.features m.verdicts m.specs m.tier stamp = .ok m.configuration ∧
    Lint.check m.configuration = .ok m.lint := by
  obtain ⟨-, -, made⟩ := bind_ok made
  obtain ⟨e, extracted, made⟩ := bind_ok made
  obtain ⟨configuration, written, made⟩ := bind_ok made
  obtain ⟨lint, checked, made⟩ := bind_ok made
  rw [← Except.ok.inj made]
  exact ⟨⟨_, map_error_ok extracted⟩, ⟨_, rfl⟩, map_error_ok written, map_error_ok checked⟩

theorem features_sound : m.extraction.features.Sound := by
  obtain ⟨⟨excluded, extracted⟩, -⟩ := translate_parts made
  exact Extraction.of_sound extracted

theorem limits_written : Limits.of m.extraction.features = .ok m.limits ∧
    m.configuration = document (blocks {} m.context m.specs m.tier m.limits stamp) := by
  obtain ⟨-, -, written, -⟩ := translate_parts made
  obtain ⟨limits, given, written⟩ := bind_ok written
  have same : m.limits = limits := by
    unfold Migration.limits
    rw [given]
    rfl
  rw [same, context, same]
  exact ⟨given, (Except.ok.inj written).symm⟩

theorem context_known : Known m.context m.limits := by
  obtain ⟨-, ⟨hits, judged⟩, -⟩ := translate_parts made
  unfold Migration.context
  rw [judged]
  exact parts_known (features_sound made) (limits_written made).1 hits m.tier

theorem names_distinct : (m.jobs.map (·.name)).Nodup := by
  obtain ⟨-, ⟨hits, judged⟩, -⟩ := translate_parts made
  unfold Migration.jobs Migration.context
  rw [judged]
  exact part_names_distinct (features_sound made) hits m.tier _ _

/-- When no comment line holds a line break, the configuration is valid just when its characters are ones that a
    document may hold, no rule has a mark between documents after a line break, and no key is longer than a reader
    takes. -/
theorem lint_valid_iff (unbroken : ∀ l ∈ m.commentLines stamp, l.all (fun x => !isBreak x) = true) :
    m.lint.valid = true ↔ m.configuration.all isAllowed = true ∧
      (∀ r ∈ m.ruleConditions, meetsMark r = false) ∧ ∀ k ∈ m.keyTexts, k.length ≤ 1024 := by
  obtain ⟨-, -, -, checked⟩ := translate_parts made
  obtain ⟨-, text⟩ := limits_written made
  have known := context_known made
  rw [text] at checked ⊢
  have whole := document_valid_iff {} m.specs m.tier stamp known (names_distinct made) known.limits.expiry
    (fun l member comment => unbroken l (List.mem_filter.2 ⟨member, comment⟩)) m.lint checked
  rw [whole, ruleConditions, List.forall_mem_flatMap]
  refine and_congr_right fun _ => and_congr_left fun _ => ?_
  refine forall₂_congr fun j _ => ?_
  rw [List.forall_mem_map]

end Translate

-- A parameter whose name goes into a comment, and a library whose name breaks one.
def passwordScript : Text := "password(name: 'k')"
def brokenScript : Text := "library 'a\n['\n"

theorem password_lint_valid : ∃ m, translate {} passwordScript {} [] = .ok m ∧
    (∀ l ∈ m.commentLines [], l.all (fun x => !isBreak x) = true) ∧
    (m.lint.valid = true ↔ m.configuration.all isAllowed = true ∧
      (∀ r ∈ m.ruleConditions, meetsMark r = false) ∧ ∀ k ∈ m.keyTexts, k.length ≤ 1024) := by
  have done : (translate {} passwordScript {} []).toOption.any
      (fun m => (m.commentLines []).all fun l => l.all fun x => !isBreak x) = true := by decide +kernel
  cases made : translate {} passwordScript {} [] with
  | error fault =>
    rw [made] at done
    cases done
  | ok m =>
    rw [made] at done
    have unbroken : ∀ l ∈ m.commentLines [], l.all (fun x => !isBreak x) = true := List.all_eq_true.1 done
    exact ⟨m, rfl, unbroken, lint_valid_iff made unbroken⟩

/-- A line break in the name of a library ends the comment that names it. -/
theorem broken_comment_invalid : ∃ m, translate {} brokenScript {} [] = .ok m ∧ m.lint.valid = false := by
  have done : (translate {} brokenScript {} []).toOption.any (fun m => !m.lint.valid) = true := by decide +kernel
  cases made : translate {} brokenScript {} [] with
  | error fault =>
    rw [made] at done
    cases done
  | ok m =>
    rw [made] at done
    have invalid : (!m.lint.valid) = true := done
    exact ⟨m, rfl, by simpa using invalid⟩

end PipelineMigration.Migration
