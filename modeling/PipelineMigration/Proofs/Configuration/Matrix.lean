import Mathlib.Algebra.BigOperators.Group.List.Basic
import PipelineMigration.Proofs.Configuration.Decoded
import PipelineMigration.Proofs.Job.Tidy
set_option autoImplicit false

/- The axes of a matrix as they are read from the job that runs once for every choice of their values. They are those
   of the script just when their names, made variables, stay apart as keys and are short enough for keys. -/
namespace PipelineMigration

namespace Yaml

/-- What a mapping says under a key. -/
def child (name : String) : Value → Option Value
  | .mapping entries => Lint.get? name entries
  | _ => none

-- The keys that are read from a mapping stay apart.
theorem of_entries_apart (entries : Entries) : ((ofEntries entries).map (·.1)).Pairwise Apart := by
  induction entries using List.reverseRecOn with
  | nil => exact .nil
  | append_singleton front e ih =>
    rw [of_entries_concat, set_entry_keys]
    split
    · exact ih
    · rename_i fresh
      refine List.pairwise_append.2 ⟨ih, List.pairwise_singleton _ _, fun k among other own => ?_⟩
      obtain rfl := List.mem_singleton.1 own
      obtain ⟨d, member, rfl⟩ := List.mem_map.1 among
      exact Bool.eq_false_iff.2 fun same => fresh (List.any_eq_true.2 ⟨d, member, same⟩)

theorem of_entries_eq_iff (entries : Entries) :
    ofEntries entries = entries ↔ (entries.map (·.1)).Pairwise Apart := by
  constructor
  · intro same
    have apart := of_entries_apart entries
    rwa [same] at apart
  · exact of_entries_distinct entries

end Yaml

namespace Job

open Yaml

variable {j : Job} {art : Block}

/-- The entries of a matrix, before those of one key are made one. -/
def axisEntries (axes : List (Text × List Text)) : Entries :=
  axes.map fun a => ((Key.mk a.1 true).value, .list (a.2.map .text))

/-- The axes of a script as the job has them. -/
def namedAxes (source : List (Text × List Text)) : List (Text × List Text) :=
  source.map fun a => (variableName a.1, a.2)

/-- What is planned for the axes of a script: each under its variable, with its values. -/
def plannedAxes (source : List (Text × List Text)) : Entries :=
  source.map fun a => ((nameKey (variableName a.1)).value, .list (a.2.map .text))

theorem axis_entries_named (source : List (Text × List Text)) :
    axisEntries (namedAxes source) = plannedAxes source := by
  unfold axisEntries namedAxes plannedAxes
  rw [List.map_map]
  refine List.map_congr_left fun a _ => ?_
  rw [nameKey, variable_name_identifier]
  rfl

/-- A job for a matrix, without comments, rules and variables but those of the axes. -/
structure IsMatrixJob (j : Job) (source : List (Text × List Text)) : Prop where
  tidy : j.Tidy .done
  name : j.name = "test:matrix".toList
  comments : j.comments = []
  rules : j.rules = []
  assignments : j.assignments = []
  matrix : j.matrix = namedAxes source

theorem matrix_job_made {c : JobContext} (filled : c.features.matrix ≠ []) :
    ∃ j ∈ matrixJobs c, IsMatrixJob j c.features.matrix := by
  obtain ⟨first, rest, matrix⟩ := List.exists_cons_of_ne_nil filled
  have neat := @matrix_jobs_neat c
  unfold matrixJobs at neat ⊢
  rw [matrix] at neat ⊢
  have here := neat _ (List.mem_singleton_self _)
  have stage : isLeafWord "test".toList = true := by decide
  exact ⟨_, List.mem_singleton_self _, ⟨stage, here.words, here.names, shown_nothing⟩, rfl, rfl, rfl, rfl, rfl⟩

theorem matrix_said (axes : List (Text × List Text)) (filled : axes ≠ []) :
    Lint.get? "parallel" (matrixBlock axes).entries =
      some (.mapping [(.text "matrix", .list [.mapping (ofEntries (axisEntries axes))])]) := by
  obtain ⟨first, rest, rfl⟩ := List.exists_cons_of_ne_nil filled
  have outer : (bareKey "parallel").value.same (.text "parallel".toList) = true := by decide
  have inner : (bareKey "matrix").value = .text "matrix".toList :=
    Configuration.bare_text "matrix" (by decide)
  have record : Record.entries ⟨axisField first, rest.map axisField⟩ = axisEntries (first :: rest) := by
    change (axisField first :: rest.map axisField).map _ = _
    rw [← List.map_cons (f := axisField), List.map_map]
    rfl
  have parallel : (matrixBlock (first :: rest)).entries = [((bareKey "parallel").value, .mapping (ofEntries
      [((bareKey "matrix").value, .list [.mapping (ofEntries (axisEntries (first :: rest)))])]))] := by
    rw [← record]
    rfl
  rw [parallel, inner]
  simp only [Lint.get?, List.find?_cons, outer]
  rfl

theorem body_matrix (filled : j.matrix ≠ []) : Lint.get? "parallel" (j.body art).entries =
    some (.mapping [(.text "matrix", .list [.mapping (ofEntries (axisEntries j.matrix))])]) := by
  have stage : Lint.get? "parallel" (plainLeaf "stage" j.stage).entries = none :=
    @Lint.get_absent_block "parallel" (plainLeaf "stage" j.stage) ["stage"] (List.Sublist.refl _) (by decide)
  have image := @Lint.get_absent_block "parallel" _ ["image"] (image_heads j.image) (by decide)
  have services := @Lint.get_absent_block "parallel" _ ["services"]
    (words_heads "services" (j.services.map .plain)) (by decide)
  have assigned := @Lint.get_absent_block "parallel" _ ["variables"] (variables_heads j.assignments) (by decide)
  have needs := @Lint.get_absent_block "parallel" _ ["needs"] (needs_heads j.needs) (by decide)
  simp only [body_eq, doing, entries_append, Lint.get_append, stage, image, services, assigned, needs,
    matrix_said j.matrix filled, Option.none_or, Option.some_or]

end Job

namespace Configuration

open Yaml

/-- The axes that a document says for a job. -/
def axesRead (job : String) (text : Text) : Option Entries :=
  match (read text).toOption.bind fun document =>
      ((child job document).bind (child "parallel")).bind (child "matrix") with
  | some (.list [.mapping axes]) => some axes
  | _ => none

/-- The cells of a matrix: a value from every axis. -/
def cells {α : Type} : List (List α) → List (List α)
  | [] => [[]]
  | axis :: rest => axis.flatMap fun v => (cells rest).map (v :: ·)

theorem cells_count {α : Type} (axes : List (List α)) : (cells axes).length = (axes.map List.length).prod := by
  induction axes with
  | nil => rfl
  | cons axis rest ih => simp [cells, List.length_flatMap, ih]

/-- The values that an axis lists. -/
def valuesOf : Value → List Value
  | .list items => items
  | _ => []

/-- How many cells the axes of a mapping make. -/
def cellCount (axes : Entries) : Nat := (cells (axes.map (valuesOf ·.2))).length

section Job

variable {j : Job} {art : Block}

-- What a job without comments and rules says is read just when the names of its variables are short enough.
theorem job_read (tidy : j.Tidy art) (comments : j.comments = []) (rules : j.rules = [])
    (named : (quote j.name).length ≤ 1024) : read (linesText (Job.layout j)) =
      if ∀ n ∈ j.variableNames, n.length ≤ 1024 then .ok (.mapping [(.text j.name, .mapping (j.body art).entries)])
      else .error .malformed := by
  have drawn := Job.draws_job tidy
  have remarks : (j.block art).remarks = [] := by rw [Job.block_remarks tidy, comments, List.map_nil]
  have singles : (j.block art).singles = [] := by rw [Job.block_singles tidy, rules, List.map_nil]
  have quiet : ∀ r ∈ (j.block art).remarks, isRemark r = true := by
    rw [remarks]
    exact fun _ none => nomatch none
  have text : (j.block art).text = linesText (Job.layout j) := block_text drawn
  have markless : (j.block art).text.head? ≠ some '\ufeff' := by
    obtain ⟨body, whole⟩ := Job.layout_begins j
    rw [text, whole, comments]
    exact fun wrong => absurd (Option.some.inj wrong) (by decide)
  have short := Job.block_short tidy
  rw [← text]
  split
  · rename_i names
    have clean : (j.block art).Clean := by
      refine ⟨?_, ?_, short.2 ⟨named, names⟩⟩
      · rw [remarks]
        exact fun _ none => nomatch none
      · rw [singles]
        exact fun _ none => nomatch none
    rw [read_clean _ drawn.fits quiet markless drawn.sound (Job.block_filled j art) clean, Job.block_entries,
      Job.body_entries]
    rfl
  · rename_i long
    exact read_unclean _ drawn.fits quiet markless fun clean => long (short.1 clean.keys).2

end Job

/-- The axes of a job are what is planned, every one with a key of its own and with its values in order, and the cells
    are all choices of values. -/
structure KeepsAxes (j : Job) (source : List (Text × List Text)) : Prop where
  keys : (j.matrix.map (·.1)).Nodup
  axes : axesRead "test:matrix" (linesText (Job.layout j)) = some (Job.plannedAxes source)
  cells : (axesRead "test:matrix" (linesText (Job.layout j))).map cellCount = some (source.map (·.2.length)).prod

section Matrix

variable {j : Job} {source : List (Text × List Text)}

theorem planned_cells (source : List (Text × List Text)) :
    cellCount (Job.plannedAxes source) = (source.map (·.2.length)).prod := by
  rw [cellCount, cells_count, List.map_map, Job.plannedAxes, List.map_map]
  congr 1
  exact List.map_congr_left fun a _ => List.length_map _

-- The axes that are read: of those with one key only one is left, and none when a name is too long for a key.
theorem axes_read (made : Job.IsMatrixJob j source) (filled : source ≠ []) : axesRead "test:matrix" (linesText (Job.layout j)) =
      if ∀ a ∈ source, (Job.variableName a.1).length ≤ 1024 then some (ofEntries (Job.plannedAxes source)) else none := by
  have short : (quote j.name).length ≤ 1024 := by
    rw [made.name]
    decide
  have names : (∀ n ∈ j.variableNames, n.length ≤ 1024) ↔ ∀ a ∈ source, (Job.variableName a.1).length ≤ 1024 := by
    rw [Job.variableNames, made.assignments, made.matrix, Job.namedAxes, List.map_map, List.map_nil, List.nil_append,
      List.forall_mem_map]
    rfl
  have axes : j.matrix ≠ [] := by
    rw [made.matrix, Job.namedAxes]
    simpa using filled
  unfold axesRead
  rw [job_read made.tidy made.comments made.rules short]
  by_cases fits : ∀ a ∈ source, (Job.variableName a.1).length ≤ 1024
  · have own : child "test:matrix" (.mapping [(.text j.name, .mapping (j.body .done).entries)]) =
        some (.mapping (j.body .done).entries) := by
      rw [made.name]
      rfl
    have inner (axes : Entries) : child "matrix" (.mapping [(.text "matrix".toList, .list [.mapping axes])]) =
        some (.list [.mapping axes]) := rfl
    rw [if_pos (names.2 fits), if_pos fits]
    dsimp only [Except.toOption, Option.bind_some]
    rw [own, Option.bind_some, child, Job.body_matrix axes, Option.bind_some, inner, made.matrix, Job.axis_entries_named]
  · rw [if_neg (mt names.1 fits), if_neg fits]
    rfl

-- The keys of a matrix stay apart only as names do.
theorem named_axes_nodup (apart : ((Job.plannedAxes source).map (·.1)).Pairwise Apart) :
    ((Job.namedAxes source).map (·.1)).Nodup := by
  rw [Job.plannedAxes, List.map_map, List.pairwise_map] at apart
  rw [Job.namedAxes, List.map_map, List.Nodup, List.pairwise_map]
  refine apart.imp fun {a b} other same => ?_
  have alike := key_alike (Job.variableName a.1)
  have same : Job.variableName a.1 = Job.variableName b.1 := same
  have other : Apart (nameKey (Job.variableName a.1)).value (nameKey (Job.variableName b.1)).value := other
  rw [← same] at other
  exact Bool.noConfusion (alike.symm.trans other)

variable {policy : ReviewPolicy} {f : FeatureSet} {verdicts : List Verdict} {specs : List VariableSpec}
  {tier : ComplexityTier} {stamp text : Text}

theorem matrix_job_shown (made : synthesize policy f verdicts specs tier stamp = .ok text) (filled : f.matrix ≠ []) :
    ∃ j : Job, Job.IsMatrixJob j f.matrix ∧ Shows text (Job.layout j) := by
  obtain ⟨limits, -, rfl⟩ := synthesize_document made
  obtain ⟨j, among, own⟩ := @Job.matrix_job_made (JobContext.of f verdicts tier limits.expiry) filled
  refine ⟨j, own, job_shown _ limits j ?_⟩
  simp only [Job.jobs, Job.coreJobs, List.mem_append, List.mem_cons]
  exact .inl (.inl (.inl (.inl (.inr (.inr among)))))

/-- A matrix has its job, which keeps the axes just when their variables stay apart as keys and are short enough. -/
theorem matrix_axes_kept_iff (made : synthesize policy f verdicts specs tier stamp = .ok text)
    (filled : f.matrix ≠ []) : ∃ j : Job, j.name = "test:matrix".toList ∧ Shows text (Job.layout j) ∧
      j.matrix = Job.namedAxes f.matrix ∧ (KeepsAxes j f.matrix ↔
        ((Job.plannedAxes f.matrix).map (·.1)).Pairwise Apart ∧
          ∀ a ∈ f.matrix, (Job.variableName a.1).length ≤ 1024) := by
  obtain ⟨j, own, shown⟩ := matrix_job_shown made filled
  have read := axes_read own filled
  refine ⟨j, own.name, shown, own.matrix, fun kept => ?_, fun ⟨apart, short⟩ => ?_⟩
  · have axes := kept.axes
    rw [read] at axes
    split at axes
    · rename_i short
      exact ⟨(of_entries_eq_iff _).1 (Option.some.inj axes), short⟩
    · cases axes
  · rw [if_pos short, (of_entries_eq_iff _).2 apart] at read
    refine ⟨?_, read, ?_⟩
    · rw [own.matrix]
      exact named_axes_nodup apart
    · rw [read, Option.map_some, planned_cells]

end Matrix

-- Two axes of two values each.
def gridFeatures : FeatureSet := { matrix := [("os", ["linux", "mac"]), ("jdk", ["17", "21"])] }

theorem grid_axes_kept : ∃ text, synthesize {} gridFeatures [] [] .simple [] = .ok text ∧ gridFeatures.matrix ≠ [] ∧
    ∃ j : Job, Shows text (Job.layout j) ∧ KeepsAxes j gridFeatures.matrix := by
  have done : (synthesize {} gridFeatures [] [] .simple []).toOption.isSome = true := by decide +kernel
  cases made : synthesize {} gridFeatures [] [] .simple [] with
  | error fault =>
    rw [made] at done
    cases done
  | ok text =>
    have filled : gridFeatures.matrix ≠ [] := List.cons_ne_nil _ _
    have apart : ((Job.plannedAxes gridFeatures.matrix).map (·.1)).Pairwise Apart := by decide +kernel
    have short : ∀ a ∈ gridFeatures.matrix, (Job.variableName a.1).length ≤ 1024 := by decide
    obtain ⟨j, -, shown, -, kept⟩ := matrix_axes_kept_iff made filled
    exact ⟨text, rfl, filled, j, shown, kept.2 ⟨apart, short⟩⟩

-- The same axes under names that differ only in the case of their letters.
def twinFeatures : FeatureSet := { matrix := [("os", ["linux", "mac"]), ("OS", ["17", "21"])] }

theorem twin_axes_lost : ∃ text, synthesize {} twinFeatures [] [] .simple [] = .ok text ∧
    (twinFeatures.matrix.map (·.1)).Nodup ∧ ∃ j : Job, j.name = "test:matrix".toList ∧ Shows text (Job.layout j) ∧
      ¬ (j.matrix.map (·.1)).Nodup ∧
      axesRead "test:matrix" (linesText (Job.layout j)) = some [(.text "OS", .list [.text "17", .text "21"])] ∧
      cellCount [(.text "OS", .list [.text "17", .text "21"])] = 2 ∧ (twinFeatures.matrix.map (·.2.length)).prod = 4 := by
  have done : (synthesize {} twinFeatures [] [] .simple []).toOption.isSome = true := by decide +kernel
  cases made : synthesize {} twinFeatures [] [] .simple [] with
  | error fault =>
    rw [made] at done
    cases done
  | ok text =>
    have filled : twinFeatures.matrix ≠ [] := List.cons_ne_nil _ _
    have short : ∀ a ∈ twinFeatures.matrix, (Job.variableName a.1).length ≤ 1024 := by decide
    have key : (nameKey "OS").value = .text "OS".toList := key_kept "OS" (by decide)
    have planned : Job.plannedAxes twinFeatures.matrix = [((nameKey "OS").value, .list [.text "linux", .text "mac"]),
        ((nameKey "OS").value, .list [.text "17", .text "21"])] := rfl
    obtain ⟨j, own, shown⟩ := matrix_job_shown made filled
    have read := axes_read own filled
    rw [if_pos short, planned, key] at read
    refine ⟨text, rfl, by decide, j, own.name, shown, ?_, read, rfl, rfl⟩
    rw [own.matrix]
    decide

end Configuration
end PipelineMigration
