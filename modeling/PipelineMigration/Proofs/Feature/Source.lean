import PipelineMigration.Extraction
import PipelineMigration.Proofs.Number.Numeral
import PipelineMigration.Proofs.Outcome
import PipelineMigration.Proofs.Pattern.Consumed
set_option autoImplicit false

/- What holds of the features of every script: each phase of its post actions is known and comes once, and its
   limits are not negative. -/
namespace PipelineMigration.Feature

section Phases

theorem phase_blocks_known (body : Text) : ∀ p ∈ phaseBlocks body, p.1 ∈ PostPhase.known := by
  intro p member
  rw [phaseBlocks, List.mem_mergeSort, List.mem_flatMap] at member
  obtain ⟨phase, known, found⟩ := member
  obtain ⟨b, -, rfl⟩ := List.mem_map.1 found
  exact known

theorem add_actions_known (phases : List (PostPhase × List PostAction)) (phase : PostPhase)
    (actions : List PostAction) (known : phase ∈ PostPhase.known)
    (held : ∀ q ∈ phases.map (·.1), q ∈ PostPhase.known) :
    ∀ q ∈ (addActions phases phase actions).map (·.1), q ∈ PostPhase.known := by
  intro q member
  rcases Keyed.mem_keys_put member with rfl | before
  · exact known
  · exact held q before

-- The phases of post actions are known ones and come once each.
theorem post_actions_sound (s : Text) : ((postActions s).map (·.1)).Nodup ∧
    ∀ q ∈ (postActions s).map (·.1), q ∈ PostPhase.known := by
  have found : ∀ p ∈ (Script.blocks "post" s).flatMap fun b => phaseBlocks b.body, p.1 ∈ PostPhase.known := by
    rw [List.forall_mem_flatMap]
    exact fun b _ => phase_blocks_known b.body
  refine List.foldlRecOn (motive := fun phases : List (PostPhase × List PostAction) =>
    (phases.map (·.1)).Nodup ∧ ∀ q ∈ phases.map (·.1), q ∈ PostPhase.known) _ _ ?_ ?_
  · exact ⟨List.nodup_nil, List.forall_mem_nil _⟩
  · -- One block keeps the phases that are held known and distinct.
    rintro phases ⟨distinct, known⟩ p member
    dsimp only
    split
    · exact ⟨distinct, known⟩
    · exact ⟨Keyed.nodup_keys_put distinct, add_actions_known phases p.1 _ (found p member) known⟩

end Phases

section Numbers

open Number (readInteger)
open Outcome (bind_ok each_ok)

theorem ceil_minutes_nonneg (millis : Int) : 0 ≤ ceilMinutes millis := by
  unfold ceilMinutes
  split
  · exact Int.le_refl 0
  · rename_i positive
    have below : Int.fdiv (-millis) 60000 < 0 := by
      rw [Int.fdiv_eq_ediv_of_nonneg _ (by decide)]
      exact Int.ediv_neg_of_neg_of_pos (by omega) (by decide)
    omega

theorem timeout_nonneg {s : Text} {n : Int} (read : timeout s = .ok n) : 0 ≤ n := by
  unfold timeout at read
  split at read
  · exact Except.ok.inj read ▸ Int.le_refl 0
  · dsimp only at read
    split at read
    · exact Except.ok.inj read ▸ Int.le_refl 0
    · obtain ⟨k, -, done⟩ := bind_ok read
      rw [← Except.ok.inj done]
      exact ceil_minutes_nonneg _

theorem read_unsigned {s : Text} {n : Int} (unsigned : '-' ∉ s) (read : readInteger s = .ok n) : 0 ≤ n := by
  have sign : (Number.splitSign (Text.trimLeftBy Number.isPadding s)).1 = false := by
    have absent : '-' ∉ Text.trimLeftBy Number.isPadding s := fun member =>
      unsigned ((List.dropWhile_sublist _).subset member)
    unfold Number.splitSign
    split
    · rename_i same
      rw [same] at absent
      exact absurd List.mem_cons_self absent
    · rfl
    · rfl
  unfold readInteger at read
  cases parts : Number.splitSign (Text.trimLeftBy Number.isPadding s) with
  | mk negative body =>
    rw [parts] at sign read
    dsimp only at sign read
    split at read
    · cases read
    · split at read
      · cases read
      · split at read
        · cases read
        · rw [sign, if_neg Bool.false_ne_true] at read
          rw [← Except.ok.inj read]
          exact Int.natCast_nonneg _

theorem retry_digits {s : Text} {m : Match} (found : retryCall.firstMatch s = some m) :
    ∀ c ∈ m.captured 1, Text.isDecimal c = true := by
  have holds : retryCall.Holds fun _ c => Text.isDecimal c = true := by
    simp [retryCall, Pattern.append_holds, Pattern.Holds, Pattern.Uses, Pattern.edge, Pattern.blanks,
      Pattern.optional]
  exact Pattern.first_match_captured retryCall holds s m found 1

theorem retry_nonneg {s : Text} {n : Int} (read : retryCount s = .ok n) : 0 ≤ n := by
  unfold retryCount at read
  split at read
  · exact Except.ok.inj read ▸ Int.le_refl 0
  · rename_i m found
    refine read_unsigned (fun member => ?_) read
    exact absurd (retry_digits found '-' member) (by decide)

-- What holds of zero and of every number read without its sign holds of all numbers of what is kept.
theorem retention_all {P : Int → Prop} (zero : P 0) (each : ∀ t n, readInteger t = .ok n → P (max n 0)) {s : Text}
    {r : Retention} (read : retention s = .ok r) :
    P r.daysToKeep ∧ P r.numToKeep ∧ P r.artifactDaysToKeep ∧ P r.artifactNumToKeep := by
  unfold retention at read
  split at read
  · rw [← Except.ok.inj read]
    exact ⟨zero, zero, zero, zero⟩
  · obtain ⟨values, found, done⟩ := bind_ok read
    obtain ⟨pairs, numbers, found⟩ := bind_ok found
    have held : ∀ p ∈ pairs, P p.2 := by
      refine each_ok (fun m p made => ?_) _ pairs numbers
      obtain ⟨n, number, made⟩ := bind_ok made
      rw [← Except.ok.inj made]
      exact each _ n number
    have amount (name : Text) : P ((Keyed.get? name values).getD 0) := by
      cases kept : Keyed.get? name values with
      | none => exact zero
      | some n =>
        rw [← Except.ok.inj found] at kept
        exact held _ (Keyed.mem_of_mem_firstOfPairs (Keyed.mem_of_get? kept))
    rw [← Except.ok.inj done]
    exact ⟨amount "daysToKeep", amount "numToKeep", amount "artifactDaysToKeep", amount "artifactNumToKeep"⟩

theorem retention_each {P : Int → Prop} (zero : P 0) (each : ∀ t n, readInteger t = .ok n → P (max n 0)) {s : Text}
    {r : Retention} (read : retention s = .ok r) : P r.daysToKeep ∧ P r.artifactDaysToKeep := by
  obtain ⟨days, -, artifactDays, -⟩ := retention_all zero each read
  exact ⟨days, artifactDays⟩

theorem retention_nonneg {s : Text} {r : Retention} (read : retention s = .ok r) :
    0 ≤ r.daysToKeep ∧ 0 ≤ r.artifactDaysToKeep :=
  retention_each (Int.le_refl 0) (fun _ n _ => Int.le_max_right n 0) read

end Numbers

end PipelineMigration.Feature

namespace PipelineMigration

open Outcome (bind_ok)

/-- What holds of the features of every script. -/
structure FeatureSet.Sound (f : FeatureSet) : Prop where
  distinct : (f.postActions.map (·.1)).Nodup
  known : ∀ p ∈ f.postActions, p.1 ∈ PostPhase.known
  timeout : 0 ≤ f.timeoutMinutes
  retry : 0 ≤ f.retryCount
  kept : 0 ≤ f.retention.daysToKeep ∧ 0 ≤ f.retention.artifactDaysToKeep

theorem FeatureSet.of_source_sound {s : Text} {f : FeatureSet} (read : ofSource s = .ok f) : f.Sound := by
  obtain ⟨minutes, timeout, read⟩ := bind_ok read
  obtain ⟨count, retry, read⟩ := bind_ok read
  obtain ⟨retention, kept, read⟩ := bind_ok read
  obtain ⟨distinct, known⟩ := Feature.post_actions_sound s
  rw [← Except.ok.inj read]
  exact ⟨distinct, fun p member => known p.1 (List.mem_map_of_mem member), Feature.timeout_nonneg timeout,
    Feature.retry_nonneg retry, Feature.retention_nonneg kept⟩

theorem Extraction.of_features {excluded : List Text} {script : Text} {e : Extraction}
    (read : Extraction.of excluded script = .ok e) : ∃ f, FeatureSet.ofSource (Script.stripComments script) = .ok f ∧
      e.features = { f with environment := e.features.environment } := by
  obtain ⟨f, source, read⟩ := bind_ok read
  refine ⟨f, source, ?_⟩
  -- Both ways of finding features start from the same ones; the second only adds to the environment.
  split at read
  · rw [← Except.ok.inj read]
  · rw [← Except.ok.inj read]

theorem Extraction.of_sound {excluded : List Text} {script : Text} {e : Extraction}
    (read : Extraction.of excluded script = .ok e) : e.features.Sound := by
  obtain ⟨f, source, same⟩ := Extraction.of_features read
  have sound := FeatureSet.of_source_sound source
  rw [same]
  exact ⟨sound.distinct, sound.known, sound.timeout, sound.retry, sound.kept⟩

end PipelineMigration

/- The numerals in a script that its limits are read from. The features of a script are found just when
   each of them can be read, and of the limits only the time may then be too long to be written. -/
namespace PipelineMigration.Feature

open Number (readInteger isNumeral Fits)
open Outcome (bind_pure_done_iff each_done_iff)

/-- The amount of the time limit. -/
def timeoutNumeral? (s : Text) : Option Text :=
  (timeoutCall.firstMatch s).bind fun m =>
    let arguments := Script.callArguments m
    timeoutAmount? arguments (Script.namedArguments arguments)

def retryNumeral? (s : Text) : Option Text := (retryCall.firstMatch s).map (·.captured 1)

def retentionNumerals (s : Text) : List Text :=
  match retentionCall.firstMatch s with
  | none => []
  | some m => (retentionArgument.allMatches (Script.callArguments m)).map (·.captured 2)

/-- All numerals that are read for limits. -/
def numerals (s : Text) : List Text :=
  (timeoutNumeral? s).toList ++ (retryNumeral? s).toList ++ retentionNumerals s

section Read

theorem looks_numeric_plain {t : Text} (looks : looksNumeric t = true) :
    ∀ c ∈ t, c = '-' ∨ Text.isDigit c = true := by
  intro c member
  rw [← List.takeWhile_append_dropWhile (p := (· == '-')) (l := t)] at member
  rcases List.mem_append.1 member with sign | digit
  · exact .inl (beq_iff_eq.1 (List.all_eq_true.1 List.all_takeWhile c sign))
  · exact .inr (List.all_eq_true.1 (Bool.and_eq_true_iff.1 looks).2 c digit)

theorem timeout_reads_iff (s : Text) :
    (∃ n, timeout s = .ok n) ↔ ∀ t ∈ (timeoutNumeral? s).toList, isNumeral t = true := by
  unfold timeout timeoutNumeral?
  cases timeoutCall.firstMatch s with
  | none => exact iff_of_true ⟨0, rfl⟩ fun _ none => nomatch none
  | some m =>
    rw [Option.bind_some]
    dsimp only
    cases amount : timeoutAmount? (Script.callArguments m) (Script.namedArguments (Script.callArguments m)) with
    | none => exact iff_of_true ⟨0, rfl⟩ fun _ none => nomatch none
    | some t =>
      have plain := looks_numeric_plain (Option.filter_eq_some_iff.1 amount).2
      rw [Option.toList_some, List.forall_mem_singleton, ← Number.read_integer_iff plain]
      exact bind_pure_done_iff

theorem retry_reads_iff (s : Text) :
    (∃ n, retryCount s = .ok n) ↔ ∀ t ∈ (retryNumeral? s).toList, isNumeral t = true := by
  unfold retryCount retryNumeral?
  cases found : retryCall.firstMatch s with
  | none => exact iff_of_true ⟨0, rfl⟩ fun _ none => nomatch none
  | some m =>
    have plain : ∀ c ∈ m.captured 1, c = '-' ∨ Text.isDigit c = true := fun c member =>
      .inr (Number.decimal_digit (retry_digits found c member))
    rw [Option.map_some, Option.toList_some, List.forall_mem_singleton, ← Number.read_integer_iff plain]

theorem retention_plain (arguments : Text) (m : Match) (member : m ∈ retentionArgument.allMatches arguments) :
    ∀ c ∈ m.captured 2, c = '-' ∨ Text.isDigit c = true := by
  have holds : retentionArgument.Holds fun slot c => slot = 2 → c = '-' ∨ Text.isDigit c = true := by
    simp +contextual [retentionArgument, Pattern.append_holds, Pattern.append_uses, Pattern.Holds, Pattern.Uses,
      Pattern.blanks, Pattern.optional, Pattern.quoteMark, Number.decimal_digit]
  exact fun c inside => Pattern.all_matches_captured retentionArgument holds arguments m member 2 c inside rfl

theorem retention_values_read_iff (arguments : Text) : (∃ values, retentionValues arguments = .ok values) ↔
    ∀ m ∈ retentionArgument.allMatches arguments, isNumeral (m.captured 2) = true := by
  refine bind_pure_done_iff.trans ((each_done_iff _).trans (forall₂_congr fun m member => ?_))
  exact bind_pure_done_iff.trans (Number.read_integer_iff (retention_plain arguments m member))

theorem retention_reads_iff (s : Text) :
    (∃ r, retention s = .ok r) ↔ ∀ t ∈ retentionNumerals s, isNumeral t = true := by
  unfold retention retentionNumerals
  cases retentionCall.firstMatch s with
  | none => exact iff_of_true ⟨_, rfl⟩ fun _ none => nomatch none
  | some m =>
    dsimp only
    rw [List.forall_mem_map, ← retention_values_read_iff]
    exact bind_pure_done_iff

end Read

section Size

theorem retry_fits {s : Text} {n : Int} (read : retryCount s = .ok n) : Fits n := by
  unfold retryCount at read
  split at read
  · rw [← Except.ok.inj read]
    exact Number.fits_zero
  · exact Number.read_integer_fits read

theorem retention_fits {s : Text} {r : Retention} (read : retention s = .ok r) :
    Fits r.daysToKeep ∧ Fits r.artifactDaysToKeep :=
  retention_each Number.fits_zero (fun _ n number =>
    Number.fits_of_le (Number.read_integer_fits number) (by omega)) read

end Size

end PipelineMigration.Feature

namespace PipelineMigration.FeatureSet

open Feature Outcome

-- The features of a script are found just when all numerals of its limits can be read.
theorem of_source_reads_iff (s : Text) :
    (∃ f, ofSource s = .ok f) ↔ ∀ t ∈ numerals s, Number.isNumeral t = true := by
  unfold ofSource numerals
  rw [List.forall_mem_append, List.forall_mem_append, ← timeout_reads_iff, ← retry_reads_iff, ← retention_reads_iff]
  constructor
  · intro found
    obtain ⟨n, timeout, found⟩ := bind_done_iff.1 found
    obtain ⟨k, retry, found⟩ := bind_done_iff.1 found
    obtain ⟨r, retention, -⟩ := bind_done_iff.1 found
    exact ⟨⟨⟨n, timeout⟩, k, retry⟩, r, retention⟩
  · rintro ⟨⟨⟨n, timeout⟩, k, retry⟩, r, retention⟩
    rw [timeout, retry, retention]
    exact ⟨_, rfl⟩

end PipelineMigration.FeatureSet
