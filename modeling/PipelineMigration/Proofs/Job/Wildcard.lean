import Mathlib.Data.List.Forall2
import PipelineMigration.Job.Rule
set_option autoImplicit false

/- Wildcards in the name of a branch, and the regular expression that takes their place. In a script a wildcard stays
   between two slashes of the name; in the regular expression it may go beyond them. -/
namespace PipelineMigration.Job

section Readings

/-- A step of a pattern for names: a character, any one, or a run of any. -/
inductive NameStep where
  | run
  | one
  | same (c : Char)

def NameStep.ofGlob (c : Char) : NameStep := if c == '*' then run else if c == '?' then one else same c

/-- What may be left of a list after a run of free members. -/
def remainders {α : Type} (free : α → Bool) : List α → List (List α)
  | [] => [[]]
  | x :: r => (x :: r) :: if free x then remainders free r else []

/-- Whether a text fits a pattern, its wildcards standing for free characters. -/
def stepsMatch (free : Char → Bool) : List NameStep → Text → Bool
  | [], s => s.isEmpty
  | .run :: steps, s => (remainders free s).any fun rest => stepsMatch free steps rest
  | .one :: steps, s => match s with
    | [] => false
    | d :: s => free d && stepsMatch free steps s
  | .same c :: steps, s => match s with
    | [] => false
    | d :: s => c == d && stepsMatch free steps s

def globMatches (free : Char → Bool) (glob s : Text) : Bool := stepsMatch free (glob.map .ofGlob) s

def anyCharacter (_ : Char) : Bool := true

def notSlash (c : Char) : Bool := c != '/'

def parts (s : Text) : List Text := Text.splitWhere (· == '/') s

/-- Whether the parts of a name fit those of a name with wildcards; two stars fit any number of parts. -/
def partsMatch : List Text → List Text → Bool
  | [], found => found.isEmpty
  | glob :: globs, found =>
    if glob == ['*', '*'] then (remainders (fun _ => true) found).any fun rest => partsMatch globs rest
    else match found with
      | [] => false
      | part :: rest => globMatches anyCharacter glob part && partsMatch globs rest

/-- Whether a branch has the name that a script says. -/
def branchMatches (glob branch : Text) : Bool := partsMatch (parts glob) (parts branch)

/-- Characters that do not stand for themselves in a regular expression between slashes. -/
def regexMarks : Text := ".*+?()|[]\x7b\x7d^$\\/"

/-- A regular expression of characters, escaped ones, single wildcards and runs of them. -/
def regexSteps : Text → Option (List NameStep)
  | [] => some []
  | '.' :: '*' :: regex => (regexSteps regex).map (.run :: ·)
  | '.' :: regex => (regexSteps regex).map (.one :: ·)
  | '\\' :: c :: regex => if Text.isWord c then none else (regexSteps regex).map (.same c :: ·)
  | c :: regex => if regexMarks.contains c then none else (regexSteps regex).map (.same c :: ·)

/-- Whether a text fits a regular expression as a whole. -/
def regexMatches (regex s : Text) : Bool := (regexSteps regex).any fun steps => stepsMatch (· != '\n') steps s

end Readings

section Runs

variable {free : Char → Bool} {steps : List NameStep} {s : Text}

theorem mem_remainders_iff {α : Type} {free : α → Bool} {s rest : List α} :
    rest ∈ remainders free s ↔ ∃ run, s = run ++ rest ∧ ∀ x ∈ run, free x = true := by
  induction s with
  | nil =>
    constructor
    · intro member
      obtain rfl := List.mem_singleton.1 member
      exact ⟨[], rfl, fun _ none => nomatch none⟩
    · rintro ⟨run, whole, -⟩
      obtain ⟨-, rfl⟩ := List.append_eq_nil_iff.1 whole.symm
      exact List.mem_singleton_self []
  | cons x s ih =>
    constructor
    · intro member
      rcases List.mem_cons.1 member with rfl | member
      · exact ⟨[], rfl, fun _ none => nomatch none⟩
      · split at member
        · rename_i first
          obtain ⟨run, rfl, all⟩ := ih.1 member
          exact ⟨x :: run, rfl, List.forall_mem_cons.2 ⟨first, all⟩⟩
        · cases member
    · rintro ⟨run, whole, all⟩
      cases run with
      | nil => exact List.mem_cons.2 (.inl whole.symm)
      | cons y run =>
        obtain ⟨rfl, rest⟩ := List.cons.inj whole
        obtain ⟨first, later⟩ := List.forall_mem_cons.1 all
        rw [remainders, if_pos first]
        exact List.mem_cons_of_mem _ (ih.2 ⟨run, rest, later⟩)

theorem run_matches_iff : stepsMatch free (.run :: steps) s = true ↔
    ∃ run rest, s = run ++ rest ∧ (∀ c ∈ run, free c = true) ∧ stepsMatch free steps rest = true := by
  rw [stepsMatch, List.any_eq_true]
  constructor
  · rintro ⟨rest, member, fits⟩
    obtain ⟨run, whole, all⟩ := mem_remainders_iff.1 member
    exact ⟨run, rest, whole, all, fits⟩
  · rintro ⟨run, rest, whole, all, fits⟩
    exact ⟨rest, mem_remainders_iff.2 ⟨run, whole, all⟩, fits⟩

theorem one_matches_iff : stepsMatch free (.one :: steps) s = true ↔
    ∃ d rest, s = d :: rest ∧ free d = true ∧ stepsMatch free steps rest = true := by
  cases s with
  | nil => simp [stepsMatch]
  | cons d s =>
    rw [stepsMatch.eq_def]
    dsimp only
    rw [Bool.and_eq_true]
    constructor
    · rintro ⟨held, fits⟩
      exact ⟨d, s, rfl, held, fits⟩
    · rintro ⟨e, rest, whole, held, fits⟩
      obtain ⟨rfl, rfl⟩ := List.cons.inj whole
      exact ⟨held, fits⟩

theorem same_matches_iff {c : Char} : stepsMatch free (.same c :: steps) s = true ↔
    ∃ rest, s = c :: rest ∧ stepsMatch free steps rest = true := by
  cases s with
  | nil => simp [stepsMatch]
  | cons d s =>
    rw [stepsMatch.eq_def]
    dsimp only
    rw [Bool.and_eq_true, beq_iff_eq]
    constructor
    · rintro ⟨rfl, fits⟩
      exact ⟨s, rfl, fits⟩
    · rintro ⟨rest, whole, fits⟩
      obtain ⟨rfl, rfl⟩ := List.cons.inj whole
      exact ⟨rfl, fits⟩

end Runs

section Expression

variable {c : Char} {glob s : Text}

theorem star_step : NameStep.ofGlob '*' = .run := rfl

theorem one_step : NameStep.ofGlob '?' = .one := rfl

theorem same_step (star : c ≠ '*') (one : c ≠ '?') : NameStep.ofGlob c = .same c := by
  unfold NameStep.ofGlob
  rw [if_neg (by simpa using star), if_neg (by simpa using one)]

-- A name with wildcards fits itself.
theorem glob_matches_self (glob : Text) : globMatches anyCharacter glob glob = true := by
  unfold globMatches
  induction glob with
  | nil => rfl
  | cons c glob ih =>
    rw [List.map_cons]
    by_cases star : c = '*'
    · subst star
      exact run_matches_iff.2 ⟨['*'], glob, rfl, fun _ _ => rfl, ih⟩
    by_cases one : c = '?'
    · subst one
      exact one_matches_iff.2 ⟨'?', glob, rfl, rfl, ih⟩
    rw [same_step star one]
    exact same_matches_iff.2 ⟨glob, rfl, ih⟩

theorem glob_regex_cons (c : Char) (glob : Text) : globRegex (c :: glob) = globChar c ++ globRegex glob := rfl

theorem marks_special : ∀ c ∈ regexMarks, c = '/' ∨ regexSpecials.contains c = true := by decide

theorem specials_wordless : ∀ c ∈ regexSpecials, Text.isWord c = false := by decide

-- A character that is no wildcard stands for itself, escaped or not.
theorem glob_char_same (star : c ≠ '*') (one : c ≠ '?') :
    (globChar c = ['\\', c] ∧ Text.isWord c = false) ∨ (globChar c = [c] ∧ regexMarks.contains c = false) := by
  unfold globChar
  rw [if_neg (by simpa using star), if_neg (by simpa using one)]
  by_cases slash : c = '/'
  · subst slash
    exact .inl ⟨rfl, by decide⟩
  rw [if_neg (by simpa using slash)]
  by_cases special : regexSpecials.contains c = true
  · rw [if_pos special]
    exact .inl ⟨rfl, specials_wordless c (List.contains_iff_mem.1 special)⟩
  · rw [if_neg special]
    refine .inr ⟨rfl, Bool.eq_false_iff.2 fun mark => ?_⟩
    exact (marks_special c (List.contains_iff_mem.1 mark)).elim slash special

-- No expression begins as a run of what stands before it.
theorem glob_regex_head (glob rest : Text) : globRegex glob ≠ '*' :: rest := by
  cases glob with
  | nil => exact nofun
  | cons c glob =>
    rw [glob_regex_cons]
    by_cases star : c = '*'
    · subst star
      exact nofun
    by_cases one : c = '?'
    · subst one
      exact nofun
    rcases glob_char_same star one with ⟨same, -⟩ | ⟨same, -⟩ <;> rw [same] <;> intro whole
    · cases whole
    · exact star (List.cons.inj whole).1

-- The expression for a name has the steps of the name.
theorem regex_steps_glob (glob : Text) : regexSteps (globRegex glob) = some (glob.map .ofGlob) := by
  induction glob with
  | nil => rfl
  | cons c glob ih =>
    rw [glob_regex_cons, List.map_cons]
    by_cases star : c = '*'
    · subst star
      rw [show globChar '*' = ['.', '*'] from rfl, star_step, List.cons_append, List.singleton_append, regexSteps, ih]
      rfl
    by_cases one : c = '?'
    · subst one
      rw [show globChar '?' = ['.'] from rfl, one_step, List.singleton_append, regexSteps, ih]
      · rfl
      · exact glob_regex_head glob
    rw [same_step star one]
    rcases glob_char_same star one with ⟨same, wordless⟩ | ⟨same, plain⟩ <;> rw [same]
    · rw [List.cons_append, List.singleton_append, regexSteps, wordless, ih]
      rfl
    · rw [List.singleton_append, regexSteps, plain, ih]
      · rfl
      · exact fun _ dot => absurd (dot ▸ plain) (by decide)
      · exact fun dot => absurd (dot ▸ plain) (by decide)
      · exact fun _ _ escape => absurd (escape ▸ plain) (by decide)

theorem steps_match_mono {wider : Char → Bool} {free : Char → Bool} (all : ∀ c, free c = true → wider c = true) {steps : List NameStep}
    {s : Text} (fits : stepsMatch free steps s = true) : stepsMatch wider steps s = true := by
  induction steps generalizing s with
  | nil => exact fits
  | cons step steps ih =>
    cases step with
    | run =>
      obtain ⟨run, rest, rfl, held, behind⟩ := run_matches_iff.1 fits
      exact run_matches_iff.2 ⟨run, rest, rfl, fun c member => all c (held c member), ih behind⟩
    | one =>
      obtain ⟨d, rest, rfl, held, behind⟩ := one_matches_iff.1 fits
      exact one_matches_iff.2 ⟨d, rest, rfl, all d held, ih behind⟩
    | same c =>
      obtain ⟨rest, rfl, behind⟩ := same_matches_iff.1 fits
      exact same_matches_iff.2 ⟨rest, rfl, ih behind⟩

-- What fits the expression for a name fits the name, its wildcards standing for any characters.
theorem regex_glob (fits : regexMatches (globRegex glob) s = true) : globMatches anyCharacter glob s = true := by
  unfold regexMatches at fits
  rw [regex_steps_glob, Option.any_some] at fits
  exact steps_match_mono (fun _ _ => rfl) fits

end Expression

section Slashes

variable {free : Char → Bool} {c : Char} {glob s : Text}

theorem glob_matches_cons : globMatches free (c :: glob) s = true ↔
    (c = '*' ∧ ∃ run rest, s = run ++ rest ∧ (∀ d ∈ run, free d = true) ∧ globMatches free glob rest = true) ∨
    (c = '?' ∧ ∃ d rest, s = d :: rest ∧ free d = true ∧ globMatches free glob rest = true) ∨
    ((c ≠ '*' ∧ c ≠ '?') ∧ ∃ rest, s = c :: rest ∧ globMatches free glob rest = true) := by
  unfold globMatches
  rw [List.map_cons]
  by_cases star : c = '*'
  · subst star
    simp [star_step, run_matches_iff]
  by_cases one : c = '?'
  · subst one
    simp [one_step, one_matches_iff]
  rw [same_step star one, same_matches_iff]
  simp [star, one]

-- A name has the slashes of the pattern that it fits.
theorem glob_slashes (fits : globMatches free glob s = true) : glob.count '/' ≤ s.count '/' := by
  induction glob generalizing s with
  | nil => exact Nat.zero_le _
  | cons c glob ih =>
    rcases glob_matches_cons.1 fits with
      ⟨rfl, run, rest, rfl, -, behind⟩ | ⟨rfl, d, rest, rfl, -, behind⟩ | ⟨-, rest, rfl, behind⟩
    · rw [List.count_cons_of_ne (by decide), List.count_append]
      exact Nat.le_add_left_of_le (ih behind)
    · rw [List.count_cons_of_ne (by decide)]
      exact Nat.le_trans (ih behind) List.count_le_count_cons
    · rw [List.count_cons, List.count_cons]
      exact Nat.add_le_add_right (ih behind) _

-- Where a name has no further slash no wildcard stands for one.
theorem glob_inside (fits : globMatches free glob s = true) (few : s.count '/' ≤ glob.count '/') :
    globMatches notSlash glob s = true := by
  induction glob generalizing s with
  | nil => exact fits
  | cons c glob ih =>
    refine glob_matches_cons.2 ?_
    rcases glob_matches_cons.1 fits with
      ⟨rfl, run, rest, rfl, -, behind⟩ | ⟨rfl, d, rest, rfl, -, behind⟩ | ⟨other, rest, rfl, behind⟩
    · have least := glob_slashes behind
      rw [List.count_cons_of_ne (by decide), List.count_append] at few
      refine .inl ⟨rfl, run, rest, rfl, fun d member => ?_, ih behind (by omega)⟩
      have none : run.count '/' = 0 := by omega
      exact bne_iff_ne.2 fun slash => List.count_eq_zero.1 none (slash ▸ member)
    · have least := glob_slashes behind
      rw [List.count_cons_of_ne (show '?' ≠ '/' by decide)] at few
      refine .inr (.inl ⟨rfl, d, rest, rfl, bne_iff_ne.2 ?_, ih behind (Nat.le_trans List.count_le_count_cons few)⟩)
      rintro rfl
      rw [List.count_cons_self] at few
      omega
    · rw [List.count_cons, List.count_cons] at few
      exact .inr (.inr ⟨other, rest, rfl, ih behind (by omega)⟩)

-- A name without wildcards fits itself only.
theorem glob_plain (plain : isGlob glob = false) (fits : globMatches free glob s = true) : s = glob := by
  induction glob generalizing s with
  | nil => exact List.isEmpty_iff.1 fits
  | cons c glob ih =>
    rw [isGlob, List.any_cons, Bool.or_eq_false_iff] at plain
    rcases glob_matches_cons.1 fits with ⟨rfl, -⟩ | ⟨rfl, -⟩ | ⟨-, rest, rfl, behind⟩
    · cases plain.1
    · cases plain.1
    · rw [ih plain.2 behind]

theorem parts_slash (s : Text) : parts ('/' :: s) = [] :: parts s := rfl

theorem parts_inside {d : Char} (inside : d ≠ '/') {part : Text} {more : List Text} (rest : parts s = part :: more) :
    parts (d :: s) = (d :: part) :: more := by
  unfold parts at rest ⊢
  rw [Text.splitWhere, if_neg (by simpa using inside), rest]

theorem parts_run {run : Text} (inside : ∀ d ∈ run, notSlash d = true) {part : Text} {more : List Text}
    (rest : parts s = part :: more) : parts (run ++ s) = (run ++ part) :: more := by
  induction run with
  | nil => exact rest
  | cons d run ih =>
    obtain ⟨first, later⟩ := List.forall_mem_cons.1 inside
    exact parts_inside (bne_iff_ne.1 first) (ih later)

theorem parts_begin (s : Text) : ∃ part more, parts s = part :: more := by
  induction s with
  | nil => exact ⟨[], [], rfl⟩
  | cons d s ih =>
    by_cases slash : d = '/'
    · subst slash
      exact ⟨[], parts s, rfl⟩
    · obtain ⟨part, more, rest⟩ := ih
      exact ⟨d :: part, more, parts_inside slash rest⟩

-- What fits a pattern whose wildcards stand for no slash fits it part by part.
theorem glob_parts (fits : globMatches notSlash glob s = true) :
    List.Forall₂ (fun glob part => globMatches anyCharacter glob part = true) (parts glob) (parts s) := by
  induction glob generalizing s with
  | nil =>
    obtain rfl := List.isEmpty_iff.1 fits
    exact .cons rfl .nil
  | cons c glob ih =>
    obtain ⟨first, globs, pattern⟩ := parts_begin glob
    rcases glob_matches_cons.1 fits with
      ⟨rfl, run, rest, rfl, inside, behind⟩ | ⟨rfl, d, rest, rfl, inside, behind⟩ | ⟨other, rest, rfl, behind⟩
    all_goals
      obtain ⟨part, more, found⟩ := parts_begin rest
      have paired := ih behind
      rw [pattern, found, List.forall₂_cons] at paired
    · rw [parts_inside (by decide) pattern, parts_run inside found]
      exact .cons (glob_matches_cons.2 (.inl ⟨rfl, run, part, rfl, fun _ _ => rfl, paired.1⟩)) paired.2
    · rw [parts_inside (by decide) pattern, parts_inside (bne_iff_ne.1 inside) found]
      exact .cons (glob_matches_cons.2 (.inr (.inl ⟨rfl, d, part, rfl, rfl, paired.1⟩))) paired.2
    · by_cases slash : c = '/'
      · subst slash
        rw [parts_slash, parts_slash, pattern, found]
        exact .cons rfl (.cons paired.1 paired.2)
      · rw [parts_inside slash pattern, parts_inside slash found]
        exact .cons (glob_matches_cons.2 (.inr (.inr ⟨other, part, rfl, paired.1⟩))) paired.2

theorem parts_match {globs found : List Text}
    (fits : List.Forall₂ (fun glob part => globMatches anyCharacter glob part = true) globs found) :
    partsMatch globs found = true := by
  induction fits with
  | nil => rfl
  | @cons glob part globs found first _ ih =>
    rw [partsMatch]
    split
    · exact List.any_eq_true.2 ⟨found, mem_remainders_iff.2 ⟨[part], rfl, fun _ _ => rfl⟩, ih⟩
    · exact Bool.and_eq_true_iff.2 ⟨first, ih⟩

-- A branch with no more slashes than the pattern has the name that the script says.
theorem branch_matches_few (fits : globMatches free glob s = true) (few : s.count '/' ≤ glob.count '/') :
    branchMatches glob s = true :=
  parts_match (glob_parts (glob_inside fits few))

end Slashes
end PipelineMigration.Job
