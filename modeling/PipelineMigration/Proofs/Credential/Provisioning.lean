import Mathlib.Algebra.Order.Floor.Div
import PipelineMigration.Credential.Provisioning
import PipelineMigration.Proofs.Text.Shell
import PipelineMigration.Proofs.Yaml.Page
set_option autoImplicit false

/- What a provisioning script does. Its variables are cut into batches of one size, of which the last may be smaller,
   with a pause between any two; and a shell that reads the batches gets one command for each variable, whatever its
   key and scope are. The project that it works on, unless the environment names another one, is written into the default
   of an expansion in double quotes, and its id comes out of it as it is just when it is inert there. -/
namespace PipelineMigration.Credential

open Text Text.Shell

section Batches

variable (size : Nat) (specs : List VariableSpec)

/-- The variables of batch `i`, as far as there are any. -/
def part (i : Nat) : List VariableSpec := specs.extract ((i - 1) * size) (min (i * size) specs.length)

theorem part_succ (j : Nat) : part size specs (j + 1) = (specs.drop (j * size)).take size := by
  have room : (j + 1) * size = j * size + size := Nat.succ_mul j size
  have count : min (j * size + size) specs.length - j * size = min size (specs.length - j * size) := by omega
  rw [part, List.extract_eq_take_drop, Nat.add_sub_cancel, room, count, ← List.length_drop]
  exact List.take_eq_take_min.symm

variable {size specs}

theorem parts_more (positive : 0 < size) (filled : specs ≠ []) :
    specs.length ⌈/⌉ size = (specs.length - size) ⌈/⌉ size + 1 := by
  have some := List.length_pos_iff.2 filled
  rw [Nat.ceilDiv_eq_add_pred_div, Nat.ceilDiv_eq_add_pred_div]
  by_cases large : size ≤ specs.length
  · have split : specs.length + size - 1 = specs.length - size + size - 1 + size := by omega
    rw [split, Nat.add_div_right _ positive]
  · have none : specs.length - size = 0 := by omega
    have once : specs.length + size - 1 = specs.length - 1 + size := by omega
    rw [none, once, Nat.add_div_right _ positive, Nat.div_eq_of_lt (by omega), Nat.div_eq_of_lt (by omega)]

theorem batches_of_parts (k : Nat) (specs : List VariableSpec) : batchesOf k specs =
    (List.range (specs.length ⌈/⌉ (k + 1))).map fun j => (specs.drop (j * (k + 1))).take (k + 1) := by
  fun_induction batchesOf k specs with
  | case1 => simp
  | case2 specs filled ih =>
    rw [parts_more (Nat.succ_pos k) filled, List.range_succ_eq_map, List.map_cons, List.map_map, ih, List.length_drop]
    refine congrArg₂ _ ?_ (List.map_congr_left fun j _ => ?_)
    · rw [Nat.zero_mul, List.drop_zero]
    · rw [Function.comp_apply, List.drop_drop, Nat.succ_mul, Nat.add_comm (k + 1)]

theorem clamp_batch (batchSize : Int) : (clampBatch batchSize : Int) = max 1 (min 50 batchSize) := by
  unfold clampBatch
  omega

-- How many batches there are, and which variables each one has.
theorem batches_parts (batchSize : Int) (specs : List VariableSpec) : batches batchSize specs =
    (List.range' 1 (specs.length ⌈/⌉ clampBatch batchSize)).map (part (clampBatch batchSize) specs) := by
  have positive : 0 < clampBatch batchSize := by
    have := clamp_batch batchSize
    omega
  obtain ⟨k, size⟩ := Nat.exists_eq_succ_of_ne_zero positive.ne'
  rw [batches, size, Nat.succ_sub_one, batches_of_parts, List.range'_eq_map_range, List.map_map]
  refine List.map_congr_left fun j _ => ?_
  rw [Function.comp_apply, Nat.add_comm 1 j, part_succ]

-- The batches together are all the variables, each once and in their order.
theorem parts_whole (positive : 0 < size) (specs : List VariableSpec) :
    (List.range' 1 (specs.length ⌈/⌉ size)).flatMap (part size specs) = specs := by
  obtain ⟨k, rfl⟩ := Nat.exists_eq_succ_of_ne_zero positive.ne'
  have joined (specs : List VariableSpec) : (batchesOf k specs).flatten = specs := by
    fun_induction batchesOf k specs with
    | case1 => rfl
    | case2 specs filled ih => rw [List.flatten_cons, ih, List.take_append_drop]
  refine Eq.trans ?_ (joined specs)
  rw [batches_of_parts, List.range'_eq_map_range, List.flatMap_map, List.flatMap_def]
  refine congrArg List.flatten (List.map_congr_left fun j _ => ?_)
  rw [Nat.add_comm 1 j, part_succ]

end Batches

section Lines

def batchSection (i : Nat) (batch : List VariableSpec) : List Text :=
  [[], "# Batch ".toList ++ Text.ofNat i] ++ batch.map createCommand

def pause : List Text := ["sleep 1"]

-- A pause stands between any two batches, and nowhere else.
theorem batch_lines (f : Nat → List VariableSpec) (first count : Nat) :
    batchLines first ((List.range' first count).map f) =
      pause.intercalate ((List.range' first count).map fun i => batchSection i (f i)) := by
  induction count generalizing first with
  | zero => rfl
  | succ count ih =>
    rw [List.range'_succ, List.map_cons, List.map_cons, batchLines, ih]
    cases count with
    | zero => simp [batchSection]
    | succ count =>
      rw [List.range'_succ, List.map_cons, List.map_cons, List.intercalate_cons_cons]
      rfl

/-- The batches of a script, line by line. -/
def batchBody (size : Nat) (specs : List VariableSpec) : List Text :=
  pause.intercalate ((List.range' 1 (specs.length ⌈/⌉ size)).map fun i => batchSection i (part size specs i))

def closing (specs : List VariableSpec) : List Text :=
  [[], "echo \"Processed ".toList ++ Text.ofNat specs.length ++ " variable(s)\""]

theorem script_lines (projectId : Text) (dryRun : Bool) (batchSize : Int) (specs : List VariableSpec) :
    provisioningScript projectId dryRun batchSize specs = Text.join "\n"
      (scriptHead projectId dryRun ++ batchBody (clampBatch batchSize) specs ++ (closing specs ++ [[]])) := by
  rw [provisioningScript, batches_parts, batch_lines]
  rfl

end Lines

section Commands

/-- The words that ask for a variable. -/
def creationCommand (v : VariableSpec) : List Text :=
  ["create_variable", v.key, v.placeholder, v.valueKind.variableType, boolText v.masked, boolText v.protected_, v.scope]

def pauseCommand : List Text := ["sleep", "1"]

/-- What is said at the end. -/
def report (specs : List VariableSpec) : Text := "Processed " ++ Text.ofNat specs.length ++ " variable(s)"

def closingCommand (specs : List VariableSpec) : List Text := ["echo", report specs]

theorem create_command_quoted (v : VariableSpec) : createCommand v = join " " ((creationCommand v).map quote) := by
  have name : "create_variable ".toList = quote "create_variable" ++ " ".toList := by decide
  have whole : createCommand v = quote "create_variable" ++ " ".toList ++ join " " ((creationWords v).map quote) :=
    congrArg (· ++ join " " ((creationWords v).map quote)) name
  rw [whole, List.append_assoc]
  exact (join_quoted _ _ _).symm

theorem create_command_read (v : VariableSpec) : commands (createCommand v) = some [creationCommand v] := by
  rw [create_command_quoted]
  exact commands_words _ _

/-- Lines that are read as some commands. -/
def ReadsLines (lines : List Text) (read : List (List Text)) : Prop := Reads (lines.flatMap (· ++ ['\n'])) read

theorem ReadsLines.append {lines more : List Text} {first second : List (List Text)} (front : ReadsLines lines first)
    (back : ReadsLines more second) : ReadsLines (lines ++ more) (first ++ second) := by
  rw [ReadsLines, List.flatMap_append]
  exact Reads.append front back

theorem reads_line {line : Text} {read : List (List Text)} (reads : Reads (line ++ ['\n']) read) :
    ReadsLines [line] read := by
  rw [ReadsLines, List.flatMap_singleton]
  exact reads

theorem create_commands_read (batch : List VariableSpec) :
    ReadsLines (batch.map createCommand) (batch.map creationCommand) := by
  induction batch with
  | nil => exact reads_nothing
  | cons v rest ih =>
    have one : Reads (createCommand v ++ ['\n']) [creationCommand v] := by
      rw [create_command_quoted]
      exact reads_words _ _
    exact (reads_line one).append ih

theorem number_digits (n : Nat) : ∀ c ∈ Text.ofNat n, c.isDigit = true := fun _ member =>
  Nat.isDigit_of_mem_toDigits (by decide) (by decide) member

theorem batch_section_read (i : Nat) (batch : List VariableSpec) :
    ReadsLines (batchSection i batch) (batch.map creationCommand) := by
  have unbroken : ∀ c ∈ " Batch ".toList ++ Text.ofNat i, c ≠ '\n' := by
    refine List.forall_mem_append.2 ⟨by decide, fun c member same => ?_⟩
    have digit := number_digits i c member
    rw [same] at digit
    cases digit
  have mark : "# Batch ".toList = '#' :: " Batch ".toList := by decide
  have empty : ReadsLines [[]] [] := reads_line reads_break
  have remark : ReadsLines ["# Batch ".toList ++ Text.ofNat i] [] := by
    rw [mark]
    exact reads_line (reads_remark unbroken)
  exact (empty.append remark).append (create_commands_read batch)

theorem pause_read : ReadsLines pause [pauseCommand] := by
  have words : "sleep 1".toList = join " " (pauseCommand.map quote) := by decide
  rw [pause, words]
  exact reads_line (reads_words _ _)

theorem closing_read (specs : List VariableSpec) : ReadsLines (closing specs) [closingCommand specs] := by
  have ordinary : ∀ c ∈ report specs, c ∉ ['"', '\\', '$', '\x60'] := by
    refine List.forall_mem_append.2 ⟨List.forall_mem_append.2 ⟨by decide, fun c member => ?_⟩, by decide⟩
    have digit := number_digits _ c member
    simp only [List.mem_cons, List.not_mem_nil, or_false]
    rintro (rfl | rfl | rfl | rfl) <;> cases digit
  have front : "echo \"Processed ".toList = ['e', 'c', 'h', 'o', ' ', '"'] ++ "Processed ".toList := by decide
  have back : " variable(s)\"".toList = " variable(s)".toList ++ ['"'] := by decide
  have text (name count rest : Text) : ['e', 'c', 'h', 'o', ' ', '"'] ++ name ++ count ++ (rest ++ ['"']) =
      ['e', 'c', 'h', 'o', ' ', '"'] ++ (name ++ count ++ rest) ++ ['"'] := by
    simp only [List.append_assoc]
  have line : "echo \"Processed ".toList ++ Text.ofNat specs.length ++ " variable(s)\"".toList =
      ['e', 'c', 'h', 'o', ' ', '"'] ++ report specs ++ ['"'] :=
    (congrArg₂ (· ++ Text.ofNat specs.length ++ ·) front back).trans (text _ _ _)
  have empty : ReadsLines [[]] [] := reads_line reads_break
  refine empty.append (reads_line fun done => ?_)
  have opened : Reading.run (.start done) ['e', 'c', 'h', 'o', ' ', '"'] =
    some ⟨.double, some [], [['e', 'c', 'h', 'o']], done⟩ := rfl
  have name : "echo".toList = ['e', 'c', 'h', 'o'] := by decide
  rw [line, run_append, run_append, run_append, opened, Option.bind_some, run_double _ _ ordinary, closingCommand, name]
  rfl

-- Batches are read one after another, with the pauses between them.
theorem paused_read {f : Nat → List Text} {g : Nat → List (List Text)} (each : ∀ i, ReadsLines (f i) (g i))
    (numbers : List Nat) : ReadsLines (pause.intercalate (numbers.map f)) ([pauseCommand].intercalate (numbers.map g)) := by
  induction numbers with
  | nil => exact reads_nothing
  | cons i rest ih =>
    cases rest with
    | nil => simpa using each i
    | cons j rest =>
      rw [List.map_cons, List.map_cons, List.map_cons, List.map_cons, List.intercalate_cons_cons,
        List.intercalate_cons_cons]
      exact ((each i).append pause_read).append ih

end Commands

/-- A script creates every variable once, in their order: in batches of the size that is asked for, as far as one to
    fifty allow, with a pause between two batches; and each command has the words of its variable. -/
theorem script_creates_each (projectId : Text) (dryRun : Bool) (batchSize : Int) (specs : List VariableSpec) :
    ∃ size : Nat, (size : Int) = max 1 (min 50 batchSize) ∧
      provisioningScript projectId dryRun batchSize specs =
        Text.join "\n" (scriptHead projectId dryRun ++ batchBody size specs ++ (closing specs ++ [[]])) ∧
      (List.range' 1 (specs.length ⌈/⌉ size)).flatMap (part size specs) = specs ∧
      (∀ v, commands (createCommand v) = some [creationCommand v]) ∧
      commands (Text.join "\n" (batchBody size specs ++ (closing specs ++ [[]]))) =
        some ([pauseCommand].intercalate ((List.range' 1 (specs.length ⌈/⌉ size)).map fun i =>
          (part size specs i).map creationCommand) ++ [closingCommand specs]) := by
  have size := clamp_batch batchSize
  refine ⟨clampBatch batchSize, size, script_lines projectId dryRun batchSize specs, parts_whole (by omega) specs,
    create_command_read, ?_⟩
  have ended (lines : List Text) : Text.join "\n" (lines ++ [[]]) = lines.flatMap (· ++ ['\n']) := by
    apply (List.append_left_inj ['\n']).1
    rw [Yaml.join_lines _ (by simp)]
    simp
  rw [← List.append_assoc, ended]
  exact ((paused_read (fun i => batch_section_read i (part _ specs i)) _).append (closing_read specs)).commands

section Settings

/-- A line that lets the environment override a value. -/
def setting (name value : Text) : Text := defaulted name value ++ ['\n']

/-- What a script begins with: remarks, and how the shell is to treat errors. -/
def setup : List Text :=
  ["#!/usr/bin/env bash",
    "# Create GitLab CI/CD variables converted from Jenkins credentials.",
    "# Fill in every placeholder value before running without DRY_RUN.",
    "set -euo pipefail",
    ""]

/-- What follows the settings up to the batches. -/
def checks : List Text :=
  [[]] ++ requireVariable "GITLAB_TOKEN" "GITLAB_TOKEN:-" ++ requireVariable "PROJECT_ID" "PROJECT_ID" ++ [[]] ++
    createFunction ++ [[], dryRunTest, "  echo \"DRY RUN MODE - no variables will be created\"", "fi"]

/-- The script behind the line that sets the project. -/
def scriptRest (dryRun : Bool) (batchSize : Int) (specs : List VariableSpec) : Text :=
  setting "DRY_RUN" (boolText dryRun) ++
    (checks ++ batchBody (clampBatch batchSize) specs ++ closing specs).flatMap (· ++ ['\n'])

theorem head_settings (projectId : Text) (dryRun : Bool) : scriptHead projectId dryRun = setup ++
    [defaulted "GITLAB_API_URL" apiUrl, defaulted "PROJECT_ID" projectId, defaulted "DRY_RUN" (boolText dryRun)] ++
      checks := rfl

theorem script_settings (projectId : Text) (dryRun : Bool) (batchSize : Int) (specs : List VariableSpec) :
    provisioningScript projectId dryRun batchSize specs =
      setup.flatMap (· ++ ['\n']) ++
        (setting "GITLAB_API_URL" apiUrl ++ (setting "PROJECT_ID" projectId ++ scriptRest dryRun batchSize specs)) := by
  apply (List.append_left_inj ['\n']).1
  rw [script_lines, ← List.append_assoc _ _ [[]], Yaml.join_lines _ (by simp), head_settings]
  simp only [scriptRest, setting, List.flatMap_append, List.flatMap_cons, List.flatMap_nil, List.append_assoc,
    List.append_nil, List.nil_append]

theorem setting_parts (name value rest : Text) : setting name value ++ rest =
    name ++ (['=', '"', '$', '\x7b'] ++ (name ++ ([':', '-'] ++ (value ++ '\x7d' :: (['"', '\n'] ++ rest))))) := by
  simp [setting, defaulted, expansion]

end Settings

section Project

/-- An environment in which a name is unset. -/
def without (name : Text) (env : Text → Option Text) : Text → Option Text := fun n => if n = name then none else env n

theorem setting_assigned_iff {name : Text} (identifier : isIdentifier name = true) (env : Text → Option Text)
    (value rest : Text) :
    assigned? (without name env) (setting name value ++ rest) = some (name, value, rest) ↔ Inert false value := by
  rw [setting_parts]
  exact assigned_iff identifier identifier (if_pos rfl) value rest

theorem remark_read (line : Text) (remark : line.head? = some '#') (unbroken : ∀ c ∈ line, c ≠ '\n') :
    ReadsLines [line] [] := by
  obtain ⟨rest, rfl⟩ := List.head?_eq_some_iff.1 remark
  exact reads_line (reads_remark (List.forall_mem_cons.1 unbroken).2)

theorem setup_read : ReadsLines setup [["set", "-euo", "pipefail"]] := by
  have words : "set -euo pipefail".toList = join " " (([("set" : Text), "-euo", "pipefail"]).map quote) := by decide
  have command : ReadsLines ["set -euo pipefail"] [["set", "-euo", "pipefail"]] := by
    rw [words]
    exact reads_line (reads_words _ _)
  have remarks : ReadsLines (setup.take 3) [] :=
    (remark_read _ (by decide) (by decide)).append ((remark_read _ (by decide) (by decide)).append
      (remark_read _ (by decide) (by decide)))
  exact remarks.append (command.append (reads_line reads_break))

/-- A shell comes to the setting of the project with the settings in front of it read, and the project is set to its id,
    where the environment does not name one, just when nothing begins and nothing is taken away in the id. -/
theorem project_id_assigned_iff (projectId : Text) (dryRun : Bool) (batchSize : Int) (specs : List VariableSpec)
    (env : Text → Option Text) :
    provisioningScript projectId dryRun batchSize specs = setup.flatMap (· ++ ['\n']) ++
      (setting "GITLAB_API_URL" apiUrl ++ (setting "PROJECT_ID" projectId ++ scriptRest dryRun batchSize specs)) ∧
    ReadsLines setup [["set", "-euo", "pipefail"]] ∧
    (∀ rest, assigned? (without "GITLAB_API_URL" env) (setting "GITLAB_API_URL" apiUrl ++ rest) =
      some ("GITLAB_API_URL".toList, apiUrl, rest)) ∧
    (assigned? (without "PROJECT_ID" env) (setting "PROJECT_ID" projectId ++ scriptRest dryRun batchSize specs) =
      some ("PROJECT_ID".toList, projectId, scriptRest dryRun batchSize specs) ↔ Inert false projectId) := by
  refine ⟨script_settings projectId dryRun batchSize specs, setup_read, fun rest => ?_, ?_⟩
  · exact (setting_assigned_iff (by decide) env apiUrl rest).2 (inert_of_safe (by decide))
  · exact setting_assigned_iff (by decide) env projectId _

/-- A substitution is no text for the shell, and of two backslashes it takes one away. -/
theorem project_id_expanded :
    assigned? (without "PROJECT_ID" fun _ => none) (setting "PROJECT_ID" "$(id)" ++ scriptRest true 10 []) = none ∧
    assigned? (without "PROJECT_ID" fun _ => none) (setting "PROJECT_ID" "a\\\\b" ++ scriptRest true 10 []) =
      some ("PROJECT_ID".toList, "a\\b".toList, scriptRest true 10 []) := by
  generalize scriptRest true 10 [] = rest
  exact ⟨rfl, rfl⟩

end Project

end PipelineMigration.Credential
