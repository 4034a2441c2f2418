import PipelineMigration.Configuration.Lint
import PipelineMigration.Proofs.Outcome
set_option autoImplicit false

/- When a text has a report, and what the report says. Stages and needs are of any kind; those that cannot be
   looked up, shown or gone through leave the text without a report. -/
namespace PipelineMigration.Lint

open Yaml (Value Entries)

variable {document body : Entries} {name : Text}

/-- The job that an entry of a document stands for. -/
def job? (document : Entries) (e : Value × Value) : Option (Value × Entries) :=
  if isReserved e.1 || e.1.plain.head? == some '.' then none else (body? document e.2).map (e.1, ·)

def jobsIn (document : Entries) : Jobs := document.filterMap (job? document)

def stageOf (body : Entries) : Value := (get? "stage" body).getD (.text "test")

def placesIn (document : Entries) : List Value := stagesOf document ++ [.text ".pre", .text ".post"]

/-- What a body has under its needs, unless that counts as absent. -/
def needed? (body : Entries) : Option Value := (get? "needs" body).filter fun v => !v.isEmpty

def needsIn (body : Entries) : List Value := ((needed? body).bind Value.items?).getD []

def isIn (vs : List Value) (v : Value) : Bool := vs.any fun w => w.same v

def stageFindings (places : List Value) (name : Text) (body : Entries) : List Text :=
  if isIn places (stageOf body) then []
  else ["Job " ++ name ++ " uses undeclared stage " ++ (stageOf body).plain]

def needFindings (jobs : Jobs) (name : Text) (need : Value) : List Text :=
  if isIn (jobs.map (·.1)) (target need) then []
  else ["Job " ++ name ++ " needs unknown job " ++ (target need).plain]

def jobFindings (places : List Value) (jobs : Jobs) (j : Value × Entries) : List Text :=
  stageFindings places j.1.plain j.2 ++ scriptErrors j.1.plain j.2 ++
    (needsIn j.2).flatMap (needFindings jobs j.1.plain)

def findings (document : Entries) : List Text :=
  (if (stagesOf document).isEmpty then ["No stages defined".toList] else []) ++
    (if (jobsIn document).isEmpty then ["No jobs defined".toList] else []) ++
    (jobsIn document).flatMap (jobFindings (placesIn document) (jobsIn document))

/-- A value that can be looked up among others, and shown when it is not there. -/
structure Sought (vs : List Value) (v : Value) : Prop where
  hashable : v.unhashable? = none
  shown : isIn vs v = false → v.isTooLong = false

/-- A job whose name can be shown, and whose stage and needs can be looked up. -/
structure CheckableJob (places : List Value) (jobs : Jobs) (j : Value × Entries) : Prop where
  named : j.1.isTooLong = false
  stage : Sought places (stageOf j.2)
  listed : ∀ v ∈ needed? j.2, v.items?.isSome = true
  needs : ∀ need ∈ needsIn j.2, Sought (jobs.map (·.1)) (target need)

structure Checkable (document : Entries) : Prop where
  named : ∀ e ∈ document, isReserved e.1 = false → e.1.isTooLong = false
  stages : ∀ v ∈ stagesOf document, v.unhashable? = none
  jobs : ∀ j ∈ jobsIn document, CheckableJob (placesIn document) (jobsIn document) j

/-- A job at a declared stage, with something to run, that needs jobs only. -/
structure SoundJob (places : List Value) (jobs : Jobs) (j : Value × Entries) : Prop where
  staged : ∃ place ∈ places, place.same (stageOf j.2) = true
  runs : (get? "script" j.2).isSome = true ∨ (get? "trigger" j.2).isSome = true
  needs : ∀ need ∈ needsIn j.2, ∃ k ∈ jobs, k.1.same (target need) = true

structure Sound (document : Entries) : Prop where
  stages : stagesOf document ≠ []
  jobs : jobsIn document ≠ []
  each : ∀ j ∈ jobsIn document, SoundJob (placesIn document) (jobsIn document) j

section Steps

variable {vs places : List Value} {v : Value} {jobs : Jobs}

theorem shown_ok_iff {t : Text} : shown v = .ok t ↔ v.isTooLong = false ∧ v.plain = t := by
  unfold shown
  by_cases long : v.isTooLong = true
  · simp [long]
  · simp [Bool.eq_false_iff.2 long]

theorem among_ok_iff {there : Bool} : isAmong vs v = .ok there ↔ v.unhashable? = none ∧ isIn vs v = there := by
  unfold isAmong isIn
  cases v.unhashable? <;> simp

theorem allowed_ok_iff {allowed : List Value} :
    allowedStages vs = .ok allowed ↔
      (∀ v ∈ vs, v.unhashable? = none) ∧ vs ++ [.text ".pre", .text ".post"] = allowed := by
  unfold allowedStages
  rw [← List.findSome?_eq_none_iff]
  cases vs.findSome? Value.unhashable? <;> simp

-- What a free name adds to the jobs behind it.
theorem job_kept (document : Entries) (e : Value × Value) (free : isReserved e.1 = false) (jobs : Jobs) :
    (match body? document e.2 with
      | some entries => pure (if e.1.plain.head? == some '.' then jobs else (e.1, entries) :: jobs)
      | none => pure jobs : Except LintFault Jobs) = .ok ((job? document e).toList ++ jobs) := by
  unfold job?
  rw [free, Bool.false_or]
  cases body? document e.2 with
  | none => simp [pure, Except.pure]
  | some entries =>
    by_cases hidden : (e.1.plain.head? == some '.') = true
    · simp [hidden, pure, Except.pure]
    · simp [hidden, pure, Except.pure]

theorem jobs_ok_iff {entries : Entries} :
    jobsOf document entries = .ok jobs ↔
      (∀ e ∈ entries, isReserved e.1 = false → e.1.isTooLong = false) ∧
        entries.filterMap (job? document) = jobs := by
  induction entries generalizing jobs with
  | nil => simp [jobsOf]
  | cons e rest ih =>
    rw [List.forall_mem_cons, jobsOf]
    by_cases reserved : isReserved e.1 = true
    · have none : job? document e = none := by simp [job?, reserved]
      rw [if_pos reserved, ih, List.filterMap_cons_none none]
      simp [reserved]
    · have free := Bool.eq_false_iff.2 reserved
      have all : (e :: rest).filterMap (job? document) =
          (job? document e).toList ++ rest.filterMap (job? document) := by
        cases job : job? document e <;> simp [job]
      have kept := job_kept document e free (rest.filterMap (job? document))
      rw [if_neg reserved, all, Outcome.bind_ok_iff]
      constructor
      · rintro ⟨t, first, done⟩
        obtain ⟨behind, later, done⟩ := Outcome.bind_ok done
        obtain ⟨short, rfl⟩ := shown_ok_iff.1 first
        obtain ⟨named, rfl⟩ := ih.1 later
        exact ⟨⟨fun _ => short, named⟩, Except.ok.inj (kept.symm.trans done)⟩
      · rintro ⟨⟨short, named⟩, rfl⟩
        exact ⟨e.1.plain, shown_ok_iff.2 ⟨short free, rfl⟩, Outcome.bind_ok_iff.2 ⟨_, ih.2 ⟨named, rfl⟩, kept⟩⟩

theorem needs_ok_iff {needs : List Value} :
    needsOf body = .ok needs ↔ (∀ v ∈ needed? body, v.items?.isSome = true) ∧ needsIn body = needs := by
  unfold needsOf needsIn needed?
  cases get? "needs" body with
  | none => simp
  | some v =>
    by_cases absent : v.isEmpty = true
    · simp [absent, Option.filter]
    · cases items : v.items? with
      | none => simp [absent, items]
      | some held => simp [absent, items, Option.filter]

-- What comes of a value that is looked up: nothing is found when it is there, else a line that shows it.
theorem sought_ok_iff {β : Type} (line : Text → Text) (go : List Text → Except LintFault β) {b : β} :
    (do
      if ← isAmong vs v then go []
      else do
        let t ← shown v
        go [line t]) = .ok b ↔
      Sought vs v ∧ go (if isIn vs v then [] else [line v.plain]) = .ok b := by
  rw [Outcome.bind_ok_iff]
  constructor
  · rintro ⟨there, looked, done⟩
    obtain ⟨hashable, rfl⟩ := among_ok_iff.1 looked
    by_cases inside : isIn vs v = true
    · rw [if_pos inside] at done ⊢
      exact ⟨⟨hashable, fun outside => by simp [inside] at outside⟩, done⟩
    · rw [if_neg inside] at done ⊢
      obtain ⟨t, first, done⟩ := Outcome.bind_ok done
      obtain ⟨short, rfl⟩ := shown_ok_iff.1 first
      exact ⟨⟨hashable, fun _ => short⟩, done⟩
  · rintro ⟨sought, done⟩
    refine ⟨isIn vs v, among_ok_iff.2 ⟨sought.hashable, rfl⟩, ?_⟩
    by_cases inside : isIn vs v = true
    · rw [if_pos inside] at done ⊢
      exact done
    · rw [if_neg inside] at done ⊢
      exact Outcome.bind_ok_iff.2 ⟨_, shown_ok_iff.2 ⟨sought.shown (Bool.eq_false_iff.2 inside), rfl⟩, done⟩

theorem stage_ok_iff {errors : List Text} :
    stageErrors places name body = .ok errors ↔
      Sought places (stageOf body) ∧ stageFindings places name body = errors :=
  (sought_ok_iff ("Job " ++ name ++ " uses undeclared stage " ++ ·) pure).trans
    (and_congr_right fun _ => ⟨Except.ok.inj, congrArg Except.ok⟩)

theorem needs_found_iff {needs : List Value} {errors : List Text} :
    needErrors jobs name needs = .ok errors ↔
      (∀ need ∈ needs, Sought (jobs.map (·.1)) (target need)) ∧
        needs.flatMap (needFindings jobs name) = errors := by
  induction needs generalizing errors with
  | nil => simp [needErrors]
  | cons need rest ih =>
    rw [List.forall_mem_cons, List.flatMap_cons, needErrors, and_assoc]
    have here := @sought_ok_iff (jobs.map (·.1)) (target need) _ ("Job " ++ name ++ " needs unknown job " ++ ·)
      (fun found => do
        let errors ← needErrors jobs name rest
        pure (found ++ errors)) errors
    refine here.trans (and_congr_right fun _ => ?_)
    rw [Outcome.bind_ok_iff]
    constructor
    · rintro ⟨behind, later, done⟩
      obtain ⟨known, rfl⟩ := ih.1 later
      exact ⟨known, Except.ok.inj done⟩
    · rintro ⟨known, rfl⟩
      exact ⟨_, ih.2 ⟨known, rfl⟩, rfl⟩

theorem job_errors_iff {each : Jobs} {errors : List Text} :
    jobErrors places jobs each = .ok errors ↔
      (∀ j ∈ each, CheckableJob places jobs j) ∧ each.flatMap (jobFindings places jobs) = errors := by
  induction each generalizing errors with
  | nil => simp [jobErrors]
  | cons j rest ih =>
    rw [List.forall_mem_cons, List.flatMap_cons, jobErrors, Outcome.bind_ok_iff]
    constructor
    · rintro ⟨t, first, done⟩
      obtain ⟨stage, second, done⟩ := Outcome.bind_ok done
      obtain ⟨needs, third, done⟩ := Outcome.bind_ok done
      obtain ⟨found, fourth, done⟩ := Outcome.bind_ok done
      obtain ⟨behind, later, done⟩ := Outcome.bind_ok done
      obtain ⟨short, rfl⟩ := shown_ok_iff.1 first
      obtain ⟨staged, rfl⟩ := stage_ok_iff.1 second
      obtain ⟨listed, rfl⟩ := needs_ok_iff.1 third
      obtain ⟨sought, rfl⟩ := needs_found_iff.1 fourth
      obtain ⟨others, rfl⟩ := ih.1 later
      exact ⟨⟨⟨short, staged, listed, sought⟩, others⟩, Except.ok.inj done⟩
    · rintro ⟨⟨checkable, others⟩, rfl⟩
      refine ⟨j.1.plain, shown_ok_iff.2 ⟨checkable.named, rfl⟩, ?_⟩
      rw [stage_ok_iff.2 ⟨checkable.stage, rfl⟩, needs_ok_iff.2 ⟨checkable.listed, rfl⟩]
      change (needErrors jobs j.1.plain (needsIn j.2) >>= _) = _
      rw [needs_found_iff.2 ⟨checkable.needs, rfl⟩, ih.2 ⟨others, rfl⟩]
      rfl

theorem document_errors_iff {errors : List Text} :
    documentErrors document = .ok errors ↔ Checkable document ∧ findings document = errors := by
  unfold documentErrors
  rw [Outcome.bind_ok_iff]
  constructor
  · rintro ⟨jobs, first, done⟩
    obtain ⟨allowed, second, done⟩ := Outcome.bind_ok done
    obtain ⟨found, third, done⟩ := Outcome.bind_ok done
    obtain ⟨named, rfl⟩ := jobs_ok_iff.1 first
    obtain ⟨stages, rfl⟩ := allowed_ok_iff.1 second
    obtain ⟨each, rfl⟩ := job_errors_iff.1 third
    exact ⟨⟨named, stages, each⟩, Except.ok.inj done⟩
  · rintro ⟨checkable, rfl⟩
    refine ⟨jobsIn document, jobs_ok_iff.2 ⟨checkable.named, rfl⟩, ?_⟩
    rw [allowed_ok_iff.2 ⟨checkable.stages, rfl⟩]
    change (jobErrors (placesIn document) (jobsIn document) (jobsIn document) >>= _) = _
    rw [job_errors_iff.2 ⟨checkable.jobs, rfl⟩]
    rfl

end Steps
section Findings

variable {places : List Value} {jobs : Jobs} {j : Value × Entries}

theorem is_in_iff {vs : List Value} {v : Value} : isIn vs v = true ↔ ∃ w ∈ vs, w.same v = true :=
  List.any_eq_true

theorem job_findings_nil_iff : jobFindings places jobs j = [] ↔ SoundJob places jobs j := by
  have stage : stageFindings places j.1.plain j.2 = [] ↔ ∃ place ∈ places, place.same (stageOf j.2) = true := by
    rw [← is_in_iff, stageFindings]
    cases isIn places (stageOf j.2) <;> simp
  have runs : scriptErrors j.1.plain j.2 = [] ↔
      (get? "script" j.2).isSome = true ∨ (get? "trigger" j.2).isSome = true := by
    rw [scriptErrors, ← Bool.or_eq_true_iff]
    cases (get? "script" j.2).isSome || (get? "trigger" j.2).isSome <;> simp
  have need (v : Value) : needFindings jobs j.1.plain v = [] ↔ ∃ k ∈ jobs, k.1.same (target v) = true := by
    have known : isIn (jobs.map (·.1)) (target v) = true ↔ ∃ k ∈ jobs, k.1.same (target v) = true := by
      rw [isIn, List.any_map, List.any_eq_true]
      rfl
    rw [← known, needFindings]
    cases isIn (jobs.map (·.1)) (target v) <;> simp
  rw [jobFindings, List.append_eq_nil_iff, List.append_eq_nil_iff, List.flatMap_eq_nil_iff, stage, runs]
  simp only [need]
  constructor
  · rintro ⟨⟨staged, runs⟩, needs⟩
    exact ⟨staged, runs, needs⟩
  · intro sound
    exact ⟨⟨sound.staged, sound.runs⟩, sound.needs⟩

theorem findings_nil_iff : findings document = [] ↔ Sound document := by
  have stages : (if (stagesOf document).isEmpty then ["No stages defined".toList] else []) = [] ↔
      stagesOf document ≠ [] := by
    cases stagesOf document <;> simp
  have jobs : (if (jobsIn document).isEmpty then ["No jobs defined".toList] else []) = [] ↔
      jobsIn document ≠ [] := by
    cases jobsIn document <;> simp
  rw [findings, List.append_eq_nil_iff, List.append_eq_nil_iff, List.flatMap_eq_nil_iff, stages, jobs]
  simp only [job_findings_nil_iff]
  constructor
  · rintro ⟨⟨stages, jobs⟩, each⟩
    exact ⟨stages, jobs, each⟩
  · intro sound
    exact ⟨⟨sound.stages, sound.jobs⟩, sound.each⟩

end Findings

/-- The reading of a text leaves something to report on. -/
def Reportable (text : Text) : Prop :=
  match Yaml.read text with
  | .ok (.mapping document) => Checkable document
  | .ok _ => True
  | .error fault => fault = .malformed

theorem check_of_mapping {text : Text} (mapping : Yaml.read text = .ok (.mapping document)) (r : LintReport) :
    check text = .ok r ↔ Checkable document ∧ report (findings document) = r := by
  unfold check
  rw [mapping]
  constructor
  · intro done
    obtain ⟨errors, found, rfl⟩ := Outcome.map_ok done
    obtain ⟨checkable, rfl⟩ := document_errors_iff.1 found
    exact ⟨checkable, rfl⟩
  · rintro ⟨checkable, rfl⟩
    simp only [document_errors_iff.2 ⟨checkable, rfl⟩]
    rfl

theorem check_beside_mapping {text : Text} (other : ∀ document, Yaml.read text ≠ .ok (.mapping document)) :
    ((∃ r, check text = .ok r) ↔ Reportable text) ∧ ∀ r, check text = .ok r → r.valid = false := by
  unfold check Reportable
  cases read : Yaml.read text with
  | error fault => cases fault <;> simp [report]
  | ok v =>
    cases v with
    | mapping document => exact absurd read (other document)
    | _ => simp [report]

/-- A text has a report just when every name, stage and need in it can be looked up and shown; and the report is
    without errors just when the text is a mapping with stages and jobs, each at a declared stage, with something
    to run, and in need of jobs only. -/
theorem checked_iff (text : Text) :
    ((∃ r, check text = .ok r) ↔ Reportable text) ∧
      ∀ r, check text = .ok r →
        (r.valid = true ↔ ∃ document, Yaml.read text = .ok (.mapping document) ∧ Sound document) := by
  by_cases mapping : ∃ document, Yaml.read text = .ok (.mapping document)
  · obtain ⟨document, read⟩ := mapping
    have reportable : Reportable text ↔ Checkable document := by rw [Reportable, read]
    rw [reportable]
    constructor
    · simp [check_of_mapping read]
    · intro r done
      obtain ⟨-, rfl⟩ := (check_of_mapping read r).1 done
      rw [report, List.isEmpty_iff, findings_nil_iff]
      constructor
      · exact fun sound => ⟨document, read, sound⟩
      · rintro ⟨other, again, sound⟩
        cases read.symm.trans again
        exact sound
  · obtain ⟨done, faulty⟩ := check_beside_mapping fun document read => mapping ⟨document, read⟩
    refine ⟨done, fun r given => ?_⟩
    rw [faulty r given]
    exact iff_of_false Bool.false_ne_true fun ⟨document, read, _⟩ => mapping ⟨document, read⟩

def isMapping : Except Yaml.Fault Value → Bool
  | .ok (.mapping _) => true
  | _ => false

theorem is_mapping_iff {v : Except Yaml.Fault Value} :
    isMapping v = true ↔ ∃ document, v = .ok (.mapping document) := by
  constructor
  · intro mapping
    unfold isMapping at mapping
    split at mapping
    · exact ⟨_, rfl⟩
    · cases mapping
  · rintro ⟨document, rfl⟩
    rfl

/-- A job whose stage is a list. -/
def listedStage : Text := "stages: [a]\njob:\n  stage: [a]\n  script: x\n"

theorem listed_stage_unreported :
    (∃ document, Yaml.read listedStage = .ok (.mapping document)) ∧ ∀ r, check listedStage ≠ .ok r := by
  have unreported : (check listedStage).toOption = none := by decide +kernel
  constructor
  · exact is_mapping_iff.1 (by decide +kernel)
  · intro r done
    rw [done] at unreported
    cases unreported

end PipelineMigration.Lint
