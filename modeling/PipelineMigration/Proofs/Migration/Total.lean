import PipelineMigration.Proofs.Feature.Source
import PipelineMigration.Proofs.Migration.Lint
set_option autoImplicit false

/- When a script is migrated. It is not when one of its limits cannot be read or written, and else only when a
   line break ends a comment of the configuration and what follows cannot be checked. -/
namespace PipelineMigration.Configuration

open Number (Fits writeInteger)

theorem write_if_done_iff (wanted : Bool) (n : Int) : (∃ t, writeIf wanted n = .ok t) ↔ (wanted = true → Fits n) := by
  unfold writeIf
  cases wanted with
  | false => exact iff_of_true ⟨none, rfl⟩ fun wanted => absurd wanted Bool.false_ne_true
  | true =>
    rw [if_pos rfl]
    constructor
    · rintro ⟨t, done⟩ -
      obtain ⟨u, written, -⟩ := Outcome.map_ok done
      exact Number.fits_of_write written
    · intro fits
      rw [Number.write_integer_fits (fits rfl)]
      exact ⟨_, rfl⟩

theorem limits_done_iff {f : FeatureSet} (sound : f.Sound) (retry : Fits f.retryCount)
    (kept : Fits (daysKept f.retention)) : (∃ limits, Limits.of f = .ok limits) ↔ Fits f.timeoutMinutes := by
  constructor
  · intro written
    obtain ⟨t, timeout, -⟩ := Outcome.bind_done_iff.1 written
    by_cases absent : f.timeoutMinutes = 0
    · rw [absent]
      exact Number.fits_zero
    · exact (write_if_done_iff _ _).1 ⟨t, timeout⟩ (bne_iff_ne.2 absent)
  · intro fits
    -- The retries that are granted are no more than those that were asked for.
    have granted : Fits (min f.retryCount maxRetry) := by
      have nonneg := sound.retry
      exact Number.fits_of_le retry (by unfold maxRetry; omega)
    obtain ⟨t, timeout⟩ := (write_if_done_iff (f.timeoutMinutes != 0) _).2 fun _ => fits
    obtain ⟨x, excess⟩ := (write_if_done_iff (maxRetry < f.retryCount) _).2 fun _ => retry
    obtain ⟨r, count⟩ := (write_if_done_iff (f.retryCount != 0) _).2 fun _ => granted
    obtain ⟨e, expiry⟩ := (write_if_done_iff (daysKept f.retention != 0) _).2 fun _ => kept
    unfold Limits.of
    dsimp only
    rw [timeout, excess, count, expiry]
    exact ⟨_, rfl⟩

end PipelineMigration.Configuration

namespace PipelineMigration

open Outcome (bind_ok map_ok map_failed bind_done_iff)

-- Of the time nothing is said: it is read in a unit and written in minutes, and may grow too long in between.
theorem FeatureSet.of_source_fits {s : Text} {f : FeatureSet} (read : ofSource s = .ok f) :
    Feature.timeout s = .ok f.timeoutMinutes ∧ Number.Fits f.retryCount ∧
      Number.Fits (Configuration.daysKept f.retention) := by
  obtain ⟨minutes, timeout, read⟩ := bind_ok read
  obtain ⟨count, retry, read⟩ := bind_ok read
  obtain ⟨retention, kept, read⟩ := bind_ok read
  rw [← Except.ok.inj read]
  refine ⟨timeout, Feature.retry_fits retry, ?_⟩
  unfold Configuration.daysKept
  split
  · exact (Feature.retention_fits kept).1
  · exact (Feature.retention_fits kept).2

theorem Extraction.of_done_iff (excluded : List Text) (script : Text) : (∃ e, Extraction.of excluded script = .ok e) ↔
    ∃ f, FeatureSet.ofSource (Script.stripComments script) = .ok f := by
  refine bind_done_iff.trans (exists_congr fun f => and_iff_left ?_)
  split
  · exact ⟨_, rfl⟩
  · exact ⟨_, rfl⟩

theorem Extraction.limits_done_iff {excluded : List Text} {script : Text} {e : Extraction}
    (read : Extraction.of excluded script = .ok e) : (∃ limits, Configuration.Limits.of e.features = .ok limits) ↔
      ∀ n, Feature.timeout (Script.stripComments script) = .ok n → Number.Fits n := by
  obtain ⟨f, source, same⟩ := Extraction.of_features read
  obtain ⟨timeout, retry, kept⟩ := FeatureSet.of_source_fits source
  have written := Configuration.limits_done_iff (Extraction.of_sound read) (by rwa [same]) (by rwa [same])
  rw [written, same]
  constructor
  · intro fits n other
    rwa [← Except.ok.inj (timeout.symm.trans other)]
  · exact fun fits => fits _ timeout

namespace Migration

open PipelineMigration.Configuration Yaml

/-- The configuration of a script block by block, before it is checked. -/
def draft (script stamp : Text) : Except Number.IntegerError (List (List Text)) := do
  let e ← Extraction.of ({} : Capability.Tables).excluded script
  let verdicts := Capability.resolve {} (Capability.scan {} script)
  let tier := ComplexityTier.of verdicts (some e.features.style)
  let specs := Credential.resolve {} {} (CredentialReference.scan script)
  let limits ← Limits.of e.features
  pure (blocks {} (JobContext.of e.features verdicts tier limits.expiry) specs tier limits stamp)

/-- The limits of a script can be read and written. -/
structure LimitsFit (script : Text) : Prop where
  numerals : ∀ t ∈ Feature.numerals (Script.stripComments script), Number.isNumeral t = true
  minutes : ∀ n, Feature.timeout (Script.stripComments script) = .ok n → Number.Fits n

/-- No line of the configuration that is a comment holds a line break. -/
def Unbroken (script stamp : Text) : Prop :=
  ∀ bs, draft script stamp = .ok bs → ∀ l ∈ bs.flatten, isCommentLine l = true → l.all (fun x => !isBreak x) = true

theorem draft_done_iff (script stamp : Text) : (∃ bs, draft script stamp = .ok bs) ↔ LimitsFit script := by
  have extracted := Extraction.of_done_iff ({} : Capability.Tables).excluded script
  rw [FeatureSet.of_source_reads_iff] at extracted
  constructor
  · rintro ⟨bs, drawn⟩
    obtain ⟨e, read, drawn⟩ := bind_ok drawn
    obtain ⟨limits, written, -⟩ := bind_ok drawn
    exact ⟨extracted.1 ⟨e, read⟩, (Extraction.limits_done_iff read).1 ⟨limits, written⟩⟩
  · intro fit
    obtain ⟨e, read⟩ := extracted.2 fit.numerals
    obtain ⟨limits, written⟩ := (Extraction.limits_done_iff read).2 fit.minutes
    exact bind_done_iff.2 ⟨e, read, bind_done_iff.2 ⟨limits, written, _, rfl⟩⟩

theorem assemble_checks (s : MigrationSettings) (e : Extraction) (hits : List CapabilityHit) (verdicts : List Verdict)
    (references : List CredentialHit) (options : PlanOptions) (stamp : Text) :
    (assemble s e hits verdicts references options stamp).map (·.lint) =
      (synthesize s.review e.features verdicts (Credential.resolve s.keys options references)
        (ComplexityTier.of verdicts (some e.features.style)) stamp).mapError .integer >>= fun text =>
      (Lint.check text).mapError .lint := by
  unfold assemble
  dsimp only
  cases synthesize s.review e.features verdicts (Credential.resolve s.keys options references)
    (ComplexityTier.of verdicts (some e.features.style)) stamp with
  | error fault => rfl
  | ok text =>
    change Except.map _ ((Lint.check text).mapError _ >>= _) = (Lint.check text).mapError _
    cases Lint.check text with
    | error fault => rfl
    | ok report => rfl

-- A migration fails where its draft or the check of the draft does, and else carries the report of that check.
theorem translate_checks_draft (script stamp : Text) : (translate {} script {} stamp).map (·.lint) =
    (draft script stamp).mapError .integer >>= fun bs => (Lint.check (document bs)).mapError .lint := by
  have allowed : checkOptions {} = .ok () := by decide
  unfold translate draft extract
  rw [allowed]
  cases Extraction.of ({} : Capability.Tables).excluded script with
  | error fault => rfl
  | ok e =>
    refine (assemble_checks {} e _ _ _ {} stamp).trans ?_
    change ((Limits.of e.features >>= _).mapError _ >>= _ : Except MigrationError LintReport) =
      (Limits.of e.features >>= _).mapError _ >>= _
    cases Limits.of e.features with
    | error fault => rfl
    | ok limits => rfl

theorem draft_checked {script stamp : Text} {bs : List (List Text)} (drawn : draft script stamp = .ok bs)
    (unbroken : ∀ l ∈ bs.flatten, isCommentLine l = true → l.all (fun x => !isBreak x) = true) :
    ∃ report, Lint.check (document bs) = .ok report := by
  obtain ⟨e, extracted, drawn⟩ := bind_ok drawn
  obtain ⟨limits, written, drawn⟩ := bind_ok drawn
  have sound := Extraction.of_sound extracted
  have known := parts_known sound written (Capability.scan {} script)
    (ComplexityTier.of (Capability.resolve {} (Capability.scan {} script)) (some e.features.style))
  rw [← Except.ok.inj drawn] at unbroken ⊢
  obtain ⟨report, checked, -⟩ := document_checked {} _ _ stamp known (part_names_distinct sound _ _ _ _)
    known.limits.expiry unbroken
  exact ⟨report, checked⟩

theorem translate_drafted {script stamp : Text} {bs : List (List Text)} (drawn : draft script stamp = .ok bs) :
    (translate {} script {} stamp).map (·.lint) = (Lint.check (document bs)).mapError .lint := by
  rw [translate_checks_draft, drawn]
  rfl

/-- A script whose limits cannot be read and written is not migrated for that reason. Any other is when no comment
    of its configuration holds a line break, and when one does, is or fails in the check. -/
theorem translate_outcome (script stamp : Text) :
    (¬ LimitsFit script → ∃ fault, translate {} script {} stamp = .error (.integer fault)) ∧
    (LimitsFit script → Unbroken script stamp → ∃ m, translate {} script {} stamp = .ok m) ∧
    (LimitsFit script → (∃ m, translate {} script {} stamp = .ok m) ∨
      ∃ fault, translate {} script {} stamp = .error (.lint fault)) := by
  refine ⟨fun unfit => ?_, fun fit unbroken => ?_, fun fit => ?_⟩
  · cases drawn : draft script stamp with
    | ok bs => exact absurd ((draft_done_iff script stamp).1 ⟨bs, drawn⟩) unfit
    | error fault =>
      have whole := translate_checks_draft script stamp
      rw [drawn] at whole
      exact ⟨fault, map_failed whole⟩
  · obtain ⟨bs, drawn⟩ := (draft_done_iff script stamp).2 fit
    obtain ⟨report, checked⟩ := draft_checked drawn (unbroken bs drawn)
    have whole := translate_drafted drawn
    rw [checked] at whole
    obtain ⟨m, made, -⟩ := map_ok whole
    exact ⟨m, made⟩
  · obtain ⟨bs, drawn⟩ := (draft_done_iff script stamp).2 fit
    have whole := translate_drafted drawn
    cases checked : Lint.check (document bs) with
    | ok report =>
      rw [checked] at whole
      obtain ⟨m, made, -⟩ := map_ok whole
      exact .inl ⟨m, made⟩
    | error fault =>
      rw [checked] at whole
      exact .inr ⟨fault, map_failed whole⟩

-- A limit in digits of another alphabet, and one that looks like a number and is none.
def limitedScript : Text := "timeout(time: '٣')"
def superscriptScript : Text := "timeout(time: '²')"

theorem limited_script_outcome :
    (LimitsFit limitedScript ∧ Unbroken limitedScript [] ∧ ∃ m, translate {} limitedScript {} [] = .ok m) ∧
    ¬ LimitsFit superscriptScript ∧ ∃ fault, translate {} superscriptScript {} [] = .error (.integer fault) := by
  have numerals : (Feature.numerals (Script.stripComments limitedScript)).all Number.isNumeral = true := by
    decide +kernel
  have minutes : Feature.timeout (Script.stripComments limitedScript) = .ok 3 := by decide +kernel
  have short : (3 : Int).natAbs < Nat.pow 10 Number.digitLimit := by decide +kernel
  have fit : LimitsFit limitedScript :=
    ⟨List.all_eq_true.1 numerals, fun n read => Except.ok.inj (minutes.symm.trans read) ▸ short⟩
  have whole : (draft limitedScript []).toOption.all (fun bs =>
      bs.flatten.all fun l => !isCommentLine l || l.all fun x => !isBreak x) = true := by decide +kernel
  have unbroken : Unbroken limitedScript [] := by
    intro bs drawn l member comment
    rw [drawn] at whole
    simpa [comment] using List.all_eq_true.1 whole l member
  have unread : (Feature.numerals (Script.stripComments superscriptScript)).all Number.isNumeral = false := by
    decide +kernel
  have unfit : ¬ LimitsFit superscriptScript := fun fit =>
    Bool.false_ne_true (unread.symm.trans (List.all_eq_true.2 fit.numerals))
  exact ⟨⟨fit, unbroken, (translate_outcome limitedScript []).2.1 fit unbroken⟩, unfit,
    (translate_outcome superscriptScript []).1 unfit⟩

/-- A superscript is taken for a digit, and then it is not read. -/
theorem superscript_limit_fails : translate {} superscriptScript {} [] = .error (.integer (.malformed "²")) := by
  have read : Feature.timeout (Script.stripComments superscriptScript) = .error (.malformed "²") := by decide +kernel
  have allowed : checkOptions {} = .ok () := by decide +kernel
  unfold translate extract Extraction.of FeatureSet.ofSource
  rw [allowed]
  dsimp only
  rw [read]
  rfl

/-- Behind a line break that ends a comment can stand what is marked as a number and is none. -/
example : (Lint.check (document [["# Library 'a\n!!int x'"]])).toOption = none := by decide +kernel

end Migration
end PipelineMigration
