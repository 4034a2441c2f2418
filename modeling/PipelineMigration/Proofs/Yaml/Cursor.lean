import PipelineMigration.Yaml.Cursor
set_option autoImplicit false

/- Where a cursor stands after so many characters: what is left of the text, how many characters
   lie behind, and how lines and columns have moved. -/
namespace PipelineMigration.Yaml.Cursor

theorem step_rest (c : Cursor) : c.step.rest = c.rest.drop 1 := by
  unfold step
  cases rest : c.rest with
  | nil => rw [rest]; rfl
  | cons x r => dsimp only; split <;> rfl

theorem step_line_le (c : Cursor) : c.line ≤ c.step.line := by
  unfold step
  cases c.rest with
  | nil => exact Nat.le_refl _
  | cons x r =>
    dsimp only
    split
    · exact Nat.le_succ _
    · exact Nat.le_refl _

theorem step_index (c : Cursor) (x : Char) (r : Text) (rest : c.rest = x :: r) :
    c.step.index = c.index + 1 := by
  unfold step
  rw [rest]
  dsimp only
  split <;> rfl

theorem step_line (c : Cursor) (x : Char) (r : Text) (rest : c.rest = x :: r) (plain : isBreak x = false) :
    c.step.line = c.line := by
  simp [step, rest, plain]

theorem step_column_le (c : Cursor) (x : Char) (r : Text) (rest : c.rest = x :: r)
    (plain : isBreak x = false) : c.column ≤ c.step.column := by
  simp only [step, rest, plain, Bool.false_and, Bool.false_eq_true, if_false]
  split <;> omega

theorem step_column (c : Cursor) (x : Char) (r : Text) (rest : c.rest = x :: r) (plain : isBreak x = false)
    (shown : x ≠ '\ufeff') : c.step.column = c.column + 1 := by
  simp [step, rest, plain, shown]

theorem advance_succ (n : Nat) (c : Cursor) : c.advance (n + 1) = c.step.advance n := rfl

theorem advance_add (m n : Nat) (c : Cursor) : c.advance (m + n) = (c.advance m).advance n := by
  induction m generalizing c with
  | zero => rw [Nat.zero_add]; rfl
  | succ m ih => rw [Nat.succ_add, advance_succ, ih, advance_succ]

theorem advance_rest (n : Nat) (c : Cursor) : (c.advance n).rest = c.rest.drop n := by
  induction n generalizing c with
  | zero => rfl
  | succ n ih => rw [advance_succ, ih, step_rest, List.drop_drop, Nat.add_comm]

theorem advance_line_le (n : Nat) (c : Cursor) : c.line ≤ (c.advance n).line := by
  induction n generalizing c with
  | zero => exact Nat.le_refl _
  | succ n ih => exact Nat.le_trans (step_line_le c) (ih c.step)

section Run

variable {c : Cursor} {run after : Text}

theorem advance_run_rest (rest : c.rest = run ++ after) : (c.advance run.length).rest = after := by
  rw [advance_rest, rest, List.drop_left]

theorem step_run_rest {x : Char} (rest : c.rest = x :: run ++ after) : c.step.rest = run ++ after := by
  rw [step_rest, rest]
  rfl

theorem advance_run_index (rest : c.rest = run ++ after) :
    (c.advance run.length).index = c.index + run.length := by
  induction run generalizing c with
  | nil => rfl
  | cons x r ih =>
    rw [List.length_cons, advance_succ, ih (step_run_rest rest), step_index c x _ rest]
    omega

-- A run without line breaks stays on its line and goes to the right.
theorem advance_run_line (rest : c.rest = run ++ after) (plain : ∀ x ∈ run, isBreak x = false) :
    (c.advance run.length).line = c.line ∧ c.column ≤ (c.advance run.length).column := by
  induction run generalizing c with
  | nil => exact ⟨rfl, Nat.le_refl _⟩
  | cons x r ih =>
    have here := plain x List.mem_cons_self
    obtain ⟨line, column⟩ := ih (step_run_rest rest) fun y later => plain y (List.mem_cons_of_mem _ later)
    exact ⟨line.trans (step_line c x _ rest here), Nat.le_trans (step_column_le c x _ rest here) column⟩

theorem advance_spaces_column (n : Nat) (rest : c.rest = List.replicate n ' ' ++ after) :
    (c.advance n).column = c.column + n := by
  induction n generalizing c with
  | zero => rfl
  | succ n ih =>
    have first : c.rest = ' ' :: (List.replicate n ' ' ++ after) := rest
    have further : c.step.rest = List.replicate n ' ' ++ after := step_run_rest rest
    rw [advance_succ, ih further, step_column c ' ' _ first (by decide) (by decide)]
    omega

end Run

theorem takeWhile_run (p : Char → Bool) (run after : Text) (all : ∀ x ∈ run, p x = true)
    (ends : after.head?.all fun x => !p x) : (run ++ after).takeWhile p = run := by
  rw [List.takeWhile_append_of_pos all]
  cases after with
  | nil => simp
  | cons x r =>
    have stop : p x = false := by simpa using ends
    rw [List.takeWhile_cons_of_neg (by simp [stop]), List.append_nil]

-- A span takes the run of a class up to the first character outside it.
theorem span_run (p : Char → Bool) {c : Cursor} {run after : Text} (rest : c.rest = run ++ after)
    (all : ∀ x ∈ run, p x = true) (ends : after.head?.all fun x => !p x) :
    c.span p = (run, c.advance run.length) := by
  unfold span
  dsimp only
  rw [rest, takeWhile_run p run after all ends]

-- A span is empty before a character outside the class.
theorem span_none (p : Char → Bool) {c : Cursor} (ends : c.rest.head?.all fun x => !p x) :
    c.span p = ([], c) :=
  span_run p (List.nil_append _).symm (fun _ member => nomatch member) ends

theorem skip_run (p : Char → Bool) {c : Cursor} {run after : Text} (rest : c.rest = run ++ after)
    (all : ∀ x ∈ run, p x = true) (ends : after.head?.all fun x => !p x) :
    c.skip p = c.advance run.length := by
  unfold skip
  rw [span_run p rest all ends]

-- Nothing is skipped before a character outside the class.
theorem skip_none (p : Char → Bool) {c : Cursor} (ends : c.rest.head?.all fun x => !p x) : c.skip p = c :=
  congrArg (·.2) (span_none p ends)

theorem line_break_of_feed {c : Cursor} {r : Text} (rest : c.rest = '\n' :: r) :
    c.lineBreak? = some ('\n', c.step) := by
  simp [lineBreak?, rest, isBreak]

theorem line_break_none {c : Cursor} (plain : c.rest.head?.all fun x => !isBreak x) :
    c.lineBreak? = none := by
  unfold lineBreak?
  split
  · rename_i r rest
    simp [rest, isBreak] at plain
  · rename_i x r _ rest
    have here : isBreak x = false := by simpa [rest] using plain
    rw [if_neg, if_neg (by simp [here])]
    intro separator
    simp only [Bool.or_eq_true, beq_iff_eq] at separator
    rcases separator with rfl | rfl <;> exact absurd here (by decide)
  · rfl

-- A line break goes to the start of a later line.
theorem line_break_some {c d : Cursor} {b : Char} (found : c.lineBreak? = some (b, d)) :
    ∃ n, 0 < n ∧ d = c.advance n ∧ n ≤ c.rest.length ∧ (∀ x ∈ c.rest.take n, isBreak x = true) := by
  unfold lineBreak? at found
  split at found
  · rename_i r rest
    obtain ⟨-, rfl⟩ := Prod.mk.inj (Option.some.inj found)
    exact ⟨2, by omega, rfl, by simp [rest], by simp [rest, isBreak]⟩
  · rename_i x r _ rest
    split at found
    · rename_i separator
      obtain ⟨-, rfl⟩ := Prod.mk.inj (Option.some.inj found)
      refine ⟨1, by omega, rfl, by simp [rest], ?_⟩
      simp only [Bool.or_eq_true, beq_iff_eq] at separator
      rcases separator with rfl | rfl <;> simp [rest, isBreak]
    · split at found
      · rename_i here
        obtain ⟨-, rfl⟩ := Prod.mk.inj (Option.some.inj found)
        exact ⟨1, by omega, rfl, by simp [rest], by simpa [rest] using here⟩
      · cases found
  · cases found

end PipelineMigration.Yaml.Cursor
