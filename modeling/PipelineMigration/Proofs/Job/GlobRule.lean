import PipelineMigration.Proofs.Job.Wildcard
set_option autoImplicit false

/- The rule for a guard on a branch with wildcards. Its expression is the name with every special character escaped,
   in which three marks are replaced afterwards. The marks are found only where the name has the character itself, so
   the expression says what the name says. -/
namespace PipelineMigration.Job

/-- Whether a text has the form of a name with wildcards: `*` stands for any text, `?` for any character and every
    other character for itself. -/
inductive GlobFits : Text → Text → Prop where
  | done : GlobFits [] []
  | run (stretch : Text) {glob rest : Text} (behind : GlobFits glob rest) : GlobFits ('*' :: glob) (stretch ++ rest)
  | one (d : Char) {glob rest : Text} (behind : GlobFits glob rest) : GlobFits ('?' :: glob) (d :: rest)
  | same {c : Char} (star : c ≠ '*') (mark : c ≠ '?') {glob rest : Text} (behind : GlobFits glob rest) :
      GlobFits (c :: glob) (c :: rest)

def escapedChar (c : Char) : Text := if regexSpecials.contains c then ['\\', c] else [c]

/-- A text with every special character escaped. -/
def escaped (s : Text) : Text := s.flatMap escapedChar

/-- A name with wildcards as an expression, by replacements in the escaped name. -/
def patched (glob : Text) : Text :=
  Text.replace (Text.replace (Text.replace (escaped glob) "\\*" ".*") "\\?" ".") "/" "\\/"

/-- Whether a slash in an expression ends it, because no backslash escapes it. -/
def hasBareSlash : Text → Bool
  | [] => false
  | '\\' :: _ :: regex => hasBareSlash regex
  | c :: regex => c == '/' || hasBareSlash regex

section Replace

variable {mark new unit tail : Text}

-- Where no mark begins inside a unit the unit stays.
theorem replace_passes (unlike : ∀ k < unit.length, mark.isPrefixOf ((unit ++ tail).drop k) = false) :
    Text.replaceFrom mark new 0 (unit ++ tail) = unit ++ Text.replaceFrom mark new 0 tail := by
  induction unit with
  | nil => rfl
  | cons c unit ih =>
    have here : mark.isPrefixOf (c :: (unit ++ tail)) = false := unlike 0 (Nat.succ_pos _)
    have later := ih fun k inside => unlike (k + 1) (Nat.succ_lt_succ inside)
    rw [List.cons_append, Text.replaceFrom, here, if_neg Bool.false_ne_true, later, List.cons_append]

-- A replacement that is right at every unit is right for the text.
theorem replace_units {old fresh : Char → Text} (s : Text) (each : ∀ c (rest : Text),
      Text.replaceFrom mark new 0 (old c ++ rest.flatMap old) =
        fresh c ++ Text.replaceFrom mark new 0 (rest.flatMap old)) :
    Text.replace (s.flatMap old) mark new = s.flatMap fresh := by
  unfold Text.replace
  induction s with
  | nil => rfl
  | cons c s ih => rw [List.flatMap_cons, each, ih, List.flatMap_cons]

end Replace

section Units

variable {c m : Char} {new tail : Text}

/-- The first replacement: a run of any characters. -/
def starredChar (c : Char) : Text := if c == '*' then ".*" else escapedChar c

theorem escaped_char_cases (c : Char) :
    (escapedChar c = ['\\', c] ∧ regexSpecials.contains c = true) ∨
      (escapedChar c = [c] ∧ regexSpecials.contains c = false) := by
  unfold escapedChar
  cases special : regexSpecials.contains c with
  | true => exact .inl ⟨rfl, rfl⟩
  | false => exact .inr ⟨rfl, rfl⟩

-- What is escaped begins with a backslash, and nothing else begins with a special character.
theorem escaped_char_begins (special : regexSpecials.contains m = true) (letter : m ≠ '\\') :
    ∃ x unit, escapedChar c = x :: unit ∧ x ≠ m := by
  rcases escaped_char_cases c with ⟨same, -⟩ | ⟨same, plain⟩
  · exact ⟨'\\', [c], same, letter.symm⟩
  · refine ⟨c, [], same, ?_⟩
    rintro rfl
    exact Bool.noConfusion (special.symm.trans plain)

theorem starred_char_begins (special : regexSpecials.contains m = true) (letter : m ≠ '\\') (dot : m ≠ '.') :
    ∃ x unit, starredChar c = x :: unit ∧ x ≠ m := by
  unfold starredChar
  split
  · exact ⟨'.', ['*'], rfl, dot.symm⟩
  · exact escaped_char_begins special letter

theorem units_head {old : Char → Text} (begins : ∀ c, ∃ x unit, old c = x :: unit ∧ x ≠ m) (s : Text) :
    (s.flatMap old).head? ≠ some m := by
  cases s with
  | nil => exact nofun
  | cons c s =>
    obtain ⟨x, unit, same, other⟩ := begins c
    rw [List.flatMap_cons, same]
    exact fun first => other (Option.some.inj first)

theorem no_pair {s : Text} (unlike : ∀ t, s ≠ '\\' :: m :: t) : ['\\', m].isPrefixOf s = false := by
  rw [Bool.eq_false_iff]
  intro front
  obtain ⟨t, rfl⟩ := List.isPrefixOf_iff_prefix.1 front
  exact unlike t rfl

-- An escaped character is found only as a whole: a backslash that is escaped itself does not begin one.
theorem escaped_char_passes (other : c ≠ m) (next : tail.head? ≠ some m) :
    Text.replaceFrom ['\\', m] new 0 (escapedChar c ++ tail) =
      escapedChar c ++ Text.replaceFrom ['\\', m] new 0 tail := by
  have second (t : Text) : c :: tail ≠ '\\' :: m :: t := by
    intro whole
    exact next (by rw [(List.cons.inj whole).2]; rfl)
  refine replace_passes fun k inside => ?_
  -- A mark could begin at the backslash, and then the character were that of the mark, or at the character.
  rcases escaped_char_cases c with ⟨same, -⟩ | ⟨same, plain⟩ <;> rw [same] at inside ⊢
  · have places : k = 0 ∨ k = 1 := by
      simp only [List.length_cons, List.length_nil] at inside
      omega
    rcases places with rfl | rfl
    · exact no_pair fun t whole => other (List.cons.inj (List.cons.inj whole).2).1
    · exact no_pair second
  · obtain rfl : k = 0 := by
      simp only [List.length_cons, List.length_nil] at inside
      omega
    exact no_pair second

theorem slashless_passes {unit : Text} (none : '/' ∉ unit) :
    Text.replaceFrom ['/'] new 0 (unit ++ tail) = unit ++ Text.replaceFrom ['/'] new 0 tail := by
  refine replace_passes fun k inside => Bool.eq_false_iff.2 fun front => none ?_
  obtain ⟨t, whole⟩ := List.isPrefixOf_iff_prefix.1 front
  rw [List.drop_append_of_le_length (Nat.le_of_lt inside), List.drop_eq_getElem_cons inside] at whole
  rw [(List.cons.inj whole).1]
  exact List.getElem_mem inside

theorem escaped_starred (glob : Text) : Text.replace (escaped glob) "\\*" ".*" = glob.flatMap starredChar := by
  refine replace_units glob fun c rest => ?_
  by_cases star : c = '*'
  · subst star
    rfl
  · rw [starredChar, if_neg (by simpa using star)]
    exact escaped_char_passes star (units_head (fun _ => escaped_char_begins rfl (by decide)) rest)

/-- The first two replacements. -/
def wildChar (c : Char) : Text := if c == '?' then "." else starredChar c

theorem starred_wild (glob : Text) : Text.replace (glob.flatMap starredChar) "\\?" "." = glob.flatMap wildChar := by
  refine replace_units glob fun c rest => ?_
  by_cases one : c = '?'
  · subst one
    rfl
  rw [wildChar, if_neg (by simpa using one)]
  by_cases star : c = '*'
  · subst star
    rfl
  · rw [starredChar, if_neg (by simpa using star)]
    exact escaped_char_passes one
      (units_head (fun _ => starred_char_begins rfl (by decide) (by decide)) rest)

theorem wild_char_glob (slash : c ≠ '/') : wildChar c = globChar c ∧ '/' ∉ wildChar c := by
  by_cases one : c = '?'
  · subst one
    decide
  by_cases star : c = '*'
  · subst star
    decide
  have wild : wildChar c = escapedChar c := by
    rw [wildChar, if_neg (by simpa using one), starredChar, if_neg (by simpa using star)]
  have glob : globChar c = escapedChar c := by
    rw [globChar, if_neg (by simpa using star), if_neg (by simpa using one), if_neg (by simpa using slash),
      escapedChar]
  refine ⟨wild.trans glob.symm, ?_⟩
  rcases escaped_char_cases c with ⟨same, -⟩ | ⟨same, -⟩ <;> rw [wild, same] <;> simp [Ne.symm slash]

theorem wild_glob (glob : Text) : Text.replace (glob.flatMap wildChar) "/" "\\/" = globRegex glob := by
  refine replace_units glob fun c rest => ?_
  by_cases slash : c = '/'
  · subst slash
    rfl
  obtain ⟨same, none⟩ := wild_char_glob slash
  rw [← same]
  exact slashless_passes none

-- The replacements in the escaped name are what each character of the name becomes.
theorem patched_eq (glob : Text) : patched glob = globRegex glob := by
  rw [patched, escaped_starred, starred_wild, wild_glob]

end Units

section Meaning

variable {glob s : Text}

theorem fits_of_matches (matched : globMatches anyCharacter glob s = true) : GlobFits glob s := by
  induction glob generalizing s with
  | nil =>
    obtain rfl := List.isEmpty_iff.1 matched
    exact .done
  | cons c glob ih =>
    rcases glob_matches_cons.1 matched with
      ⟨rfl, stretch, rest, rfl, -, behind⟩ | ⟨rfl, d, rest, rfl, -, behind⟩ | ⟨other, rest, rfl, behind⟩
    · exact .run stretch (ih behind)
    · exact .one d (ih behind)
    · exact .same other.1 other.2 (ih behind)

-- On a name without line feeds the wildcards of the expression stand for what those of the name stand for.
theorem matches_of_fits (fits : GlobFits glob s) (line : '\n' ∉ s) :
    globMatches (· != '\n') glob s = true := by
  have free {d : Char} {t : Text} (inside : '\n' ∉ t) (member : d ∈ t) : (d != '\n') = true :=
    bne_iff_ne.2 fun feed => inside (feed ▸ member)
  induction fits with
  | done => rfl
  | run stretch _ ih =>
    rw [List.mem_append, not_or] at line
    exact glob_matches_cons.2 (.inl ⟨rfl, stretch, _, rfl, fun _ member => free line.1 member, ih line.2⟩)
  | one d _ ih =>
    have first := free line List.mem_cons_self
    exact glob_matches_cons.2 (.inr (.inl ⟨rfl, d, _, rfl, first, ih (List.not_mem_of_not_mem_cons line)⟩))
  | same star mark _ ih =>
    exact glob_matches_cons.2 (.inr (.inr ⟨⟨star, mark⟩, _, rfl, ih (List.not_mem_of_not_mem_cons line)⟩))

theorem glob_regex_fits (line : '\n' ∉ s) : regexMatches (globRegex glob) s = true ↔ GlobFits glob s := by
  constructor
  · exact fun matched => fits_of_matches (regex_glob matched)
  · intro fits
    unfold regexMatches
    rw [regex_steps_glob, Option.any_some]
    exact matches_of_fits fits line

theorem bare_slash_same {c : Char} (regex : Text) (plain : c ≠ '\\') (inside : c ≠ '/') :
    hasBareSlash (c :: regex) = hasBareSlash regex := by
  rw [hasBareSlash.eq_def]
  split
  · rename_i whole
    cases whole
  · rename_i whole
    exact absurd (List.cons.inj whole).1 plain
  · rename_i whole
    obtain ⟨rfl, rfl⟩ := List.cons.inj whole
    rw [beq_eq_false_iff_ne.2 inside, Bool.false_or]

theorem glob_regex_slashes (glob : Text) : hasBareSlash (globRegex glob) = false := by
  induction glob with
  | nil => rfl
  | cons c glob ih =>
    rw [glob_regex_cons]
    by_cases star : c = '*'
    · subst star
      exact ih
    by_cases one : c = '?'
    · subst one
      exact ih
    rcases glob_char_same star one with ⟨same, -⟩ | ⟨same, plain⟩ <;> rw [same]
    · exact ih
    · refine (bare_slash_same _ ?_ ?_).trans ih <;>
        · rintro rfl
          exact absurd plain (by decide)

end Meaning

/-- The rule for a branch with wildcards holds of the branches whose names have the form of the name. -/
theorem branch_glob_kept {g : Guard} (onBranch : g.condition = .branch) (wild : isGlob g.expression = true) :
    guardRule g = some ("$CI_COMMIT_BRANCH =~ /^".toList ++ patched g.expression ++ "$/".toList) ∧
      (∀ s, '\n' ∉ s → (regexMatches (patched g.expression) s = true ↔ GlobFits g.expression s)) ∧
      hasBareSlash (patched g.expression) = false := by
  rw [patched_eq]
  refine ⟨?_, fun s line => glob_regex_fits line, glob_regex_slashes g.expression⟩
  rw [guardRule, onBranch]
  dsimp only
  rw [branchRule, if_pos wild]

/-- Both wildcards, a slash, a dot and a backslash right before a star. -/
theorem branch_glob_kept_release :
    let g : Guard := { condition := .branch, expression := "v?/a.b\\*", stage := "deploy" }
    (g.condition = .branch ∧ isGlob g.expression = true ∧ '\n' ∉ "v1/a.b\\main".toList) ∧
      guardRule g = some "$CI_COMMIT_BRANCH =~ /^v.\\/a\\.b\\\\.*$/".toList ∧
      regexMatches "v.\\/a\\.b\\\\.*" "v1/a.b\\main" = true ∧ GlobFits "v?/a.b\\*" "v1/a.b\\main" ∧
      hasBareSlash "v.\\/a\\.b\\\\.*" = false := by
  intro g
  have line : '\n' ∉ "v1/a.b\\main".toList := by decide
  have regex : patched g.expression = "v.\\/a\\.b\\\\.*".toList := by decide
  obtain ⟨rule, meaning, slashes⟩ := branch_glob_kept (g := g) rfl rfl
  rw [regex] at rule meaning slashes
  have matched : regexMatches "v.\\/a\\.b\\\\.*" "v1/a.b\\main" = true := by decide
  exact ⟨⟨rfl, rfl, line⟩, rule, matched, (meaning _ line).1 matched, slashes⟩

end PipelineMigration.Job
