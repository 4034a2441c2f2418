import PipelineMigration.Configuration.Lint
import PipelineMigration.Proofs.Job.Placement
import PipelineMigration.Proofs.Yaml.Heads
set_option autoImplicit false

/- What the checks find in a document that is made of sections with reserved names and of jobs: nothing, when
   every job has its place and what it needs is a job. -/
namespace PipelineMigration.Lint

open Yaml

section Lookup

variable (name : String)

theorem get_append (a b : Entries) : get? name (a ++ b) = (get? name a).or (get? name b) := by
  unfold get?
  rw [List.find?_append, Option.map_or]

theorem get_absent (entries : Entries) (absent : ∀ e ∈ entries, e.1.same (.text name.toList) = false) :
    get? name entries = none := by
  unfold get?
  rw [List.find?_eq_none.2 fun e member => by simpa using absent e member]
  rfl

theorem get_some (entries : Entries) (present : ∃ e ∈ entries, e.1.same (.text name.toList) = true) :
    (get? name entries).isSome = true := by
  obtain ⟨e, member, same⟩ := present
  unfold get?
  rw [Option.isSome_map, List.find?_isSome]
  exact ⟨e, member, same⟩

theorem get_absent_block (b : Block) {keys : List String} (heads : b.heads.Sublist (keys.map bareKey))
    (absent : ∀ k ∈ keys, (bareKey k).value.same (.text name.toList) = false) : get? name b.entries = none := by
  refine get_absent name _ fun e member => ?_
  have key : e.1 ∈ b.heads.map Key.value := entries_heads b ▸ List.mem_map_of_mem member
  obtain ⟨k, among, same⟩ := List.mem_map.1 key
  obtain ⟨s, known, rfl⟩ := List.mem_map.1 (heads.subset among)
  rw [← same]
  exact absent s known

theorem get_present_block (b : Block) {k : Key} (head : k ∈ b.heads)
    (present : k.value.same (.text name.toList) = true) : (get? name b.entries).isSome = true := by
  have key : k.value ∈ b.entries.map (·.1) := entries_heads b ▸ List.mem_map_of_mem head
  obtain ⟨e, member, same⟩ := List.mem_map.1 key
  exact get_some name _ ⟨e, member, same ▸ present⟩

end Lookup

/-- The body of a job says where it runs, that it does something, and what it needs. -/
structure Describes (body : Entries) (j : Job) : Prop where
  stage : get? "stage" body = some (.text j.stage)
  runs : (get? "script" body).isSome = true ∨ (get? "trigger" body).isSome = true
  needs : get? "needs" body = j.needs.map fun ns => .list (ns.map .text)

/-- A name that counts as that of a job. -/
def isJobName (name : Text) : Bool := !reserved.contains name && name.head? != some '.'

def jobEntries (jobs : List (Job × Entries)) : Entries := jobs.map fun p => (.text p.1.name, .mapping p.2)

def namedBodies (jobs : List (Job × Entries)) : Jobs := jobs.map fun p => (.text p.1.name, p.2)

theorem jobs_of_sections (document front rest : Entries) (sections : ∀ e ∈ front, isReserved e.1 = true) :
    jobsOf document (front ++ rest) = jobsOf document rest := by
  induction front with
  | nil => rfl
  | cons e front ih =>
    obtain ⟨here, others⟩ := List.forall_mem_cons.1 sections
    rw [List.cons_append, jobsOf, if_pos here, ih others]

theorem jobs_of_jobs (document : Entries) (jobs : List (Job × Entries))
    (names : ∀ p ∈ jobs, isJobName p.1.name = true) :
    jobsOf document (jobEntries jobs) = .ok (namedBodies jobs) := by
  induction jobs with
  | nil => rfl
  | cons p rest ih =>
    obtain ⟨here, others⟩ := List.forall_mem_cons.1 names
    obtain ⟨free, shown⟩ := Bool.and_eq_true_iff.1 here
    have unreserved : isReserved (.text p.1.name) = false := by simpa [isReserved] using free
    have seen : (p.1.name.head? == some '.') = false := by simpa using shown
    have text : Lint.shown (.text p.1.name) = .ok p.1.name := rfl
    have later := ih others
    rw [jobEntries, List.map_cons, jobsOf, unreserved, if_neg Bool.false_ne_true, text]
    change (do
      let jobs ← jobsOf document (jobEntries rest)
      pure (if p.1.name.head? == some '.' then jobs else (Value.text p.1.name, p.2) :: jobs)) = _
    rw [later, seen]
    rfl

theorem among_texts (names : List Text) (name : Text) (member : name ∈ names) :
    isAmong (names.map .text) (.text name) = .ok true := by
  have found : (names.map Value.text).any (fun w => w.same (.text name)) = true := by
    rw [List.any_map, List.any_eq_true]
    exact ⟨name, member, by simp [Value.same, Value.sameScalar]⟩
  exact congrArg Except.ok found

theorem allowed_stages (stages : List Text) :
    allowedStages (stages.map .text) = .ok ((stages ++ [".pre".toList, ".post".toList]).map .text) := by
  have hashable : (stages.map Value.text).findSome? Value.unhashable? = none := by
    rw [List.findSome?_eq_none_iff]
    intro v member
    obtain ⟨s, -, rfl⟩ := List.mem_map.1 member
    rfl
  rw [allowedStages, hashable, List.map_append]
  rfl

section Jobs

variable {j : Job} {body : Entries} (described : Describes body j)

include described

theorem stage_errors_nil (allowed : List Text) (name : Text) (staged : j.stage ∈ allowed) :
    stageErrors (allowed.map .text) name body = .ok [] := by
  unfold stageErrors
  rw [described.stage, Option.getD_some]
  dsimp only
  rw [among_texts allowed j.stage staged]
  rfl

theorem script_errors_nil (name : Text) : scriptErrors name body = [] := by
  unfold scriptErrors
  rcases described.runs with script | trigger
  · rw [script]
    rfl
  · rw [trigger, Bool.or_true]
    rfl

theorem needs_of_body : needsOf body = .ok ((j.needs.getD []).map .text) := by
  unfold needsOf
  rw [described.needs]
  cases j.needs with
  | none => rfl
  | some names =>
    cases names with
    | nil => rfl
    | cons n rest => rfl

end Jobs

theorem need_errors_nil (jobs : Jobs) (names : List Text) (all : jobs.map (·.1) = names.map .text) (name : Text)
    (needs : List Text) (known : ∀ need ∈ needs, need ∈ names) : needErrors jobs name (needs.map .text) = .ok [] := by
  induction needs with
  | nil => rfl
  | cons need rest ih =>
    obtain ⟨here, others⟩ := List.forall_mem_cons.1 known
    have target : target (.text need) = .text need := rfl
    rw [List.map_cons, needErrors, all, target, among_texts names need here, ih others]
    rfl

theorem job_errors_nil (stages names : List Text) (all : Jobs) (known : all.map (·.1) = names.map .text)
    (built : Job.buildName ∈ names) (jobs : List (Job × Entries)) (described : ∀ p ∈ jobs, Describes p.2 p.1)
    (placed : ∀ p ∈ jobs, Job.Placed stages p.1) :
    jobErrors ((stages ++ [".pre".toList, ".post".toList]).map .text) all (namedBodies jobs) = .ok [] := by
  induction jobs with
  | nil => rfl
  | cons p rest ih =>
    obtain ⟨here, others⟩ := List.forall_mem_cons.1 described
    obtain ⟨own, places⟩ := List.forall_mem_cons.1 placed
    have text : shown (.text p.1.name) = .ok p.1.name := rfl
    have staged : p.1.stage ∈ stages ++ [".pre".toList, ".post".toList] := by
      rcases own.staged with inside | last
      · exact List.mem_append_left _ inside
      · rw [last]
        exact List.mem_append_right _ (List.mem_cons_of_mem _ List.mem_cons_self)
    have needed := need_errors_nil all names known p.1.name (p.1.needs.getD []) fun need wanted => by
      rw [(own.needed need wanted).1]
      exact built
    rw [namedBodies, List.map_cons, jobErrors, text]
    change (do
      let stage ← stageErrors ((stages ++ [".pre".toList, ".post".toList]).map .text) p.1.name p.2
      let needs ← needErrors all p.1.name (← needsOf p.2)
      let errors ← jobErrors ((stages ++ [".pre".toList, ".post".toList]).map .text) all (namedBodies rest)
      pure (stage ++ scriptErrors p.1.name p.2 ++ needs ++ errors)) = _
    rw [stage_errors_nil here _ p.1.name staged, needs_of_body here, script_errors_nil here p.1.name,
      ih others places]
    change (do
      let needs ← needErrors all p.1.name ((p.1.needs.getD []).map .text)
      pure ([] ++ [] ++ needs ++ [])) = _
    rw [needed]
    rfl

-- A document of sections and of jobs that each have their place passes the checks.
theorem document_errors_nil (stages : List Text) (front : Entries) (jobs : List (Job × Entries))
    (declared : get? "stages" (front ++ jobEntries jobs) = some (.list (stages.map .text))) (filled : stages ≠ [])
    (sections : ∀ e ∈ front, isReserved e.1 = true) (names : ∀ p ∈ jobs, isJobName p.1.name = true)
    (described : ∀ p ∈ jobs, Describes p.2 p.1) (placed : ∀ p ∈ jobs, Job.Placed stages p.1)
    (built : Job.buildName ∈ jobs.map (·.1.name)) : documentErrors (front ++ jobEntries jobs) = .ok [] := by
  have stagesSaid : stagesOf (front ++ jobEntries jobs) = stages.map .text := by
    unfold stagesOf
    rw [declared]
  have known : (namedBodies jobs).map (·.1) = (jobs.map (·.1.name)).map .text := by
    rw [namedBodies, List.map_map, List.map_map]
    rfl
  have stagesThere : (stages.map Value.text).isEmpty = false := by
    rw [List.isEmpty_map]
    simpa using filled
  have jobsThere : (namedBodies jobs).isEmpty = false := by
    rw [namedBodies, List.isEmpty_map]
    cases jobs with
    | nil => cases built
    | cons p rest => rfl
  unfold documentErrors
  rw [stagesSaid, jobs_of_sections _ front _ sections, jobs_of_jobs _ jobs names]
  change (do
    let allowed ← allowedStages (stages.map .text)
    let errors ← jobErrors allowed (namedBodies jobs) (namedBodies jobs)
    pure ((if (stages.map Value.text).isEmpty then ["No stages defined".toList] else []) ++
      (if (namedBodies jobs).isEmpty then ["No jobs defined".toList] else []) ++ errors)) = _
  rw [allowed_stages]
  change (do
    let errors ← jobErrors ((stages ++ [".pre".toList, ".post".toList]).map .text) (namedBodies jobs)
      (namedBodies jobs)
    pure ((if (stages.map Value.text).isEmpty then ["No stages defined".toList] else []) ++
      (if (namedBodies jobs).isEmpty then ["No jobs defined".toList] else []) ++ errors)) = _
  rw [job_errors_nil stages _ (namedBodies jobs) known built jobs described placed, stagesThere, jobsThere]
  rfl

end PipelineMigration.Lint
