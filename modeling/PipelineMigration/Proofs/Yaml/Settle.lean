import PipelineMigration.Proofs.Yaml.Cursor
import PipelineMigration.Yaml.Token.Scan
set_option autoImplicit false

/- From the end of one line to the next thing to read: over spaces, comments and empty lines. A plain
   scalar passes some of this way itself, and comes to the same place. -/
namespace PipelineMigration.Yaml

open Cursor

/-- Where spaces, comments and line breaks after a place end. -/
inductive Settles : Cursor → Cursor → Prop
  | stop {c : Cursor} : c.skipRemark.lineBreak? = none → Settles c c.skipRemark
  | next {c d e : Cursor} {b : Char} : c.skipRemark.lineBreak? = some (b, d) → Settles d e → Settles c e

theorem skip_length_le (p : Char → Bool) (c : Cursor) : (c.skip p).rest.length ≤ c.rest.length := by
  unfold Cursor.skip Cursor.span
  dsimp only
  rw [advance_rest, List.length_drop]
  omega

theorem skip_remark_length_le (c : Cursor) : c.skipRemark.rest.length ≤ c.rest.length := by
  unfold Cursor.skipRemark
  dsimp only
  split
  · exact Nat.le_trans (skip_length_le _ _) (skip_length_le _ _)
  · exact skip_length_le _ _

theorem line_break_length_lt {c d : Cursor} {b : Char} (found : c.lineBreak? = some (b, d)) :
    d.rest.length < c.rest.length := by
  obtain ⟨n, positive, rfl, within, -⟩ := line_break_some found
  rw [advance_rest, List.length_drop]
  omega

section Skip

variable {s : Scan} {e : Cursor}

theorem skip_to_token_settles (fuel : Nat) (settles : Settles s.cursor e)
    (enough : s.cursor.rest.length < fuel) (allowed : s.allowKey = true) :
    s.skipToToken fuel = { s with cursor := e } := by
  generalize at_ : s.cursor = c at settles enough
  induction settles generalizing s fuel with
  | stop unbroken =>
    obtain ⟨fuel, rfl⟩ := Nat.exists_eq_succ_of_ne_zero (Nat.ne_of_gt (Nat.zero_lt_of_lt enough))
    simp only [Scan.skipToToken, at_, unbroken, Scan.goTo]
  | @next c d e b broken _ ih =>
    obtain ⟨fuel, rfl⟩ := Nat.exists_eq_succ_of_ne_zero (Nat.ne_of_gt (Nat.zero_lt_of_lt enough))
    have shorter := line_break_length_lt broken
    have within := skip_remark_length_le c
    simp only [Scan.skipToToken, at_, broken, allowed, Bool.true_or]
    rw [ih fuel rfl rfl (by omega)]

theorem skip_to_token_stop (fuel : Nat) (positive : 0 < fuel) (unbroken : s.cursor.skipRemark.lineBreak? = none) :
    s.skipToToken fuel = s.goTo s.cursor.skipRemark := by
  obtain ⟨fuel, rfl⟩ := Nat.exists_eq_succ_of_ne_zero (Nat.ne_of_gt positive)
  simp only [Scan.skipToToken, unbroken]

-- After a line break outside of brackets a key may come.
theorem skip_to_token_feed (fuel : Nat) (settles : Settles s.cursor e) {r : Text}
    (feed : s.cursor.rest = '\n' :: r) (enough : s.cursor.rest.length < fuel) (outside : s.depth = 0) :
    s.skipToToken fuel = { s with cursor := e, allowKey := true } := by
  obtain ⟨fuel, rfl⟩ := Nat.exists_eq_succ_of_ne_zero (Nat.ne_of_gt (Nat.zero_lt_of_lt enough))
  have here : s.cursor.skipRemark = s.cursor := by
    unfold Cursor.skipRemark
    rw [skip_none _ (by rw [feed]; rfl)]
    simp [Cursor.looksAt, feed]
  have broken := line_break_of_feed feed
  cases settles with
  | stop unbroken =>
    rw [here, broken] at unbroken
    cases unbroken
  | @next _ d _ b found settles =>
    rw [here, broken] at found
    obtain ⟨rfl, rfl⟩ := Prod.mk.inj (Option.some.inj found)
    have shorter := line_break_length_lt broken
    simp only [Scan.skipToToken, here, broken, Scan.inBrackets, outside, Nat.lt_irrefl, decide_false,
      Bool.not_false, Bool.or_true]
    rw [skip_to_token_settles fuel settles (by dsimp only; omega) rfl]

end Skip

/-- Nothing, or a comment, to the end of a line. -/
def isRemark (s : Text) : Bool := s.head?.all (· == '#') && s.all fun x => !isBreak x

/-- Lines that hold at most a comment, each with its indentation. -/
def quietText (quiet : List (Nat × Text)) : Text :=
  quiet.flatMap fun (n, remark) => List.replicate n ' ' ++ remark ++ ['\n']

-- A text that spaces, comments and line breaks end before.
def opensHere (s : Text) : Bool := s.head?.all fun x => x != ' ' && x != '#' && !isBreak x

section Opens

variable {body : Text} (opens : opensHere body = true)

include opens

theorem opens_not_space : body.head?.all fun x => !(x == ' ') := by
  unfold opensHere at opens
  cases body with
  | nil => rfl
  | cons x r => simp_all [bne]

theorem opens_not_remark {c : Cursor} (rest : c.rest = body) : c.looksAt (· == '#') = false := by
  unfold opensHere at opens
  unfold Cursor.looksAt
  rw [rest]
  cases body with
  | nil => rfl
  | cons x r => simp_all [bne]

theorem opens_not_break : body.head?.all fun x => !isBreak x := by
  unfold opensHere at opens
  cases body with
  | nil => rfl
  | cons x r => simp_all [bne]

theorem skip_remark_opens {c : Cursor} (n : Nat) (rest : c.rest = List.replicate n ' ' ++ body) :
    c.skipRemark = c.advance n := by
  have left := advance_run_rest rest
  have skipped := skip_run (· == ' ') rest (fun x member => by simp [List.eq_of_mem_replicate member])
    (opens_not_space opens)
  rw [List.length_replicate] at left skipped
  unfold Cursor.skipRemark
  rw [skipped]
  dsimp only
  rw [opens_not_remark opens left]
  rfl

theorem skip_to_token_opens {s : Scan} (n fuel : Nat) (positive : 0 < fuel)
    (rest : s.cursor.rest = List.replicate n ' ' ++ body) :
    s.skipToToken fuel = s.goTo (s.cursor.advance n) := by
  have left := advance_run_rest rest
  rw [List.length_replicate] at left
  have here := skip_remark_opens opens n rest
  rw [← here]
  refine skip_to_token_stop fuel positive (line_break_none ?_)
  rw [here, left]
  exact opens_not_break opens

theorem settles_opens {c : Cursor} (n : Nat) (rest : c.rest = List.replicate n ' ' ++ body) :
    Settles c (c.advance n) := by
  have left := advance_run_rest rest
  rw [List.length_replicate] at left
  have unbroken : (c.advance n).lineBreak? = none :=
    line_break_none (by rw [left]; exact opens_not_break opens)
  rw [← skip_remark_opens opens n rest] at unbroken ⊢
  exact .stop unbroken

end Opens

-- Spaces and a comment lead to the end of their line.
theorem skip_remark_line {c : Cursor} (n : Nat) (remark after : Text) (quiet : isRemark remark = true)
    (rest : c.rest = List.replicate n ' ' ++ remark ++ '\n' :: after) :
    c.skipRemark = c.advance (n + remark.length) := by
  have plain : ∀ x ∈ remark, (fun x => !isBreak x) x = true := by
    simp only [isRemark, Bool.and_eq_true, List.all_eq_true] at quiet
    exact quiet.2
  rw [List.append_assoc] at rest
  have left := advance_run_rest rest
  rw [List.length_replicate] at left
  have ends : (remark ++ '\n' :: after).head?.all fun x => !(x == ' ') := by
    cases remark with
    | nil => rfl
    | cons x r =>
      simp only [isRemark, List.head?_cons, Option.all_some, Bool.and_eq_true, beq_iff_eq] at quiet
      simp [quiet.1]
  have skipped := skip_run (· == ' ') rest (fun x member => by simp [List.eq_of_mem_replicate member]) ends
  rw [List.length_replicate] at skipped
  unfold Cursor.skipRemark
  rw [skipped, advance_add]
  dsimp only
  cases remark with
  | nil =>
    have feed : (c.advance n).looksAt (· == '#') = false := by
      unfold Cursor.looksAt
      rw [left]
      rfl
    rw [feed]
    rfl
  | cons x r =>
    have mark : (c.advance n).looksAt (· == '#') = true := by
      simp only [isRemark, List.head?_cons, Option.all_some, Bool.and_eq_true, beq_iff_eq] at quiet
      unfold Cursor.looksAt
      rw [left]
      simp [quiet.1]
    rw [mark, if_pos rfl, skip_run (fun x => !isBreak x) left plain rfl]

section Quiet

variable {body : Text} (opens : opensHere body = true)

include opens

-- From the start of a line, quiet lines lead to the first character that is none of theirs.
theorem settles_quiet (quiet : List (Nat × Text)) (remarks : ∀ p ∈ quiet, isRemark p.2 = true) (n : Nat)
    (c : Cursor) (start : c.column = 0) (rest : c.rest = quietText quiet ++ (List.replicate n ' ' ++ body)) :
    ∃ e, Settles c e ∧ e.rest = body ∧ e.column = n ∧ c.line ≤ e.line := by
  induction quiet generalizing c with
  | nil =>
    have rest : c.rest = List.replicate n ' ' ++ body := rest
    have left := advance_run_rest rest
    rw [List.length_replicate] at left
    refine ⟨c.advance n, settles_opens opens n rest, left, ?_, advance_line_le n c⟩
    rw [advance_spaces_column n rest, start, Nat.zero_add]
  | cons p quiet ih =>
    obtain ⟨m, remark⟩ := p
    have rest : c.rest = List.replicate m ' ' ++ remark ++
        '\n' :: (quietText quiet ++ (List.replicate n ' ' ++ body)) := by
      rw [rest]
      simp [quietText]
    have skipped := skip_remark_line m remark _ (remarks _ List.mem_cons_self) rest
    have left : c.skipRemark.rest = '\n' :: (quietText quiet ++ (List.replicate n ' ' ++ body)) := by
      have behind := advance_run_rest rest
      rw [List.length_append, List.length_replicate] at behind
      rw [skipped, behind]
    have further : c.skipRemark.step.rest = quietText quiet ++ (List.replicate n ' ' ++ body) := by
      rw [step_rest, left]
      rfl
    have column : c.skipRemark.step.column = 0 := by simp [Cursor.step, left, isBreak]
    obtain ⟨e, settles, whole, placed, later⟩ :=
      ih (fun q among => remarks q (List.mem_cons_of_mem _ among)) _ column further
    refine ⟨e, .next (line_break_of_feed left) settles, whole, placed, ?_⟩
    exact Nat.le_trans (Nat.le_trans (skipped ▸ advance_line_le _ c) (step_line_le _)) later

-- From the end of a line, the same place, on a later line.
theorem settles_feed (quiet : List (Nat × Text)) (remarks : ∀ p ∈ quiet, isRemark p.2 = true) (n : Nat)
    (c : Cursor) (rest : c.rest = '\n' :: (quietText quiet ++ (List.replicate n ' ' ++ body))) :
    ∃ e, Settles c e ∧ e.rest = body ∧ e.column = n ∧ c.line < e.line := by
  have further : c.step.rest = quietText quiet ++ (List.replicate n ' ' ++ body) := by
    rw [step_rest, rest]
    rfl
  have column : c.step.column = 0 := by simp [Cursor.step, rest, isBreak]
  have line : c.step.line = c.line + 1 := by simp [Cursor.step, rest, isBreak]
  have here : c.skipRemark = c := skip_remark_line 0 [] _ rfl rest
  obtain ⟨e, settles, whole, placed, later⟩ := settles_quiet opens quiet remarks n _ column further
  exact ⟨e, .next (by rw [here]; exact line_break_of_feed rest) settles, whole, placed, by omega⟩

end Quiet

theorem skip_idempotent (p : Char → Bool) (c : Cursor) : (c.skip p).skip p = c.skip p := by
  refine skip_none p ?_
  unfold Cursor.skip Cursor.span
  dsimp only
  have split := List.takeWhile_append_dropWhile (p := p) (l := c.rest)
  rw [advance_run_rest split.symm]
  cases left : c.rest.dropWhile p with
  | nil => rfl
  | cons x r =>
    have stop := List.head?_dropWhile_not p c.rest
    rw [left] at stop
    simpa using stop

theorem skip_remark_skip (c : Cursor) : (c.skip (· == ' ')).skipRemark = c.skipRemark := by
  unfold Cursor.skipRemark
  rw [skip_idempotent]

theorem settles_skip {c e : Cursor} (settles : Settles c e) : Settles (c.skip (· == ' ')) e := by
  cases settles with
  | stop unbroken =>
    rw [← skip_remark_skip] at unbroken ⊢
    exact .stop unbroken
  | next found settles =>
    rw [← skip_remark_skip] at found
    exact .next found settles

-- Before a line break there is no comment.
theorem skip_remark_before_break {c d : Cursor} {b : Char}
    (found : (c.skip (· == ' ')).lineBreak? = some (b, d)) : c.skipRemark = c.skip (· == ' ') := by
  have plain : (c.skip (· == ' ')).looksAt (· == '#') = false := by
    obtain ⟨n, positive, -, within, breaks⟩ := line_break_some found
    unfold Cursor.looksAt
    cases rest : (c.skip (· == ' ')).rest with
    | nil => rfl
    | cons x r =>
      obtain ⟨m, rfl⟩ := Nat.exists_eq_succ_of_ne_zero (Nat.ne_of_gt positive)
      have here := breaks x (by rw [rest]; exact List.mem_cons_self)
      rw [List.head?_cons, Option.any_some, beq_eq_false_iff_ne]
      rintro rfl
      exact absurd here (by decide)
  unfold Cursor.skipRemark
  dsimp only
  rw [plain]
  rfl

theorem settles_break {c d e : Cursor} {b : Char} (settles : Settles c e)
    (found : (c.skip (· == ' ')).lineBreak? = some (b, d)) : Settles d e := by
  have here := skip_remark_before_break found
  cases settles with
  | stop unbroken =>
    rw [here, found] at unbroken
    cases unbroken
  | next other settles =>
    rw [here, found] at other
    obtain ⟨rfl, rfl⟩ := Prod.mk.inj (Option.some.inj other)
    exact settles

-- A place without spaces or a line break before it is the place it settles at, unless a comment
-- begins there.
theorem settles_here {c e : Cursor} (settles : Settles c e) (spaces : c.skip (· == ' ') = c)
    (unbroken : c.lineBreak? = none) (plain : c.looksAt (· == '#') = false) : c = e := by
  have here : c.skipRemark = c := by
    unfold Cursor.skipRemark
    rw [spaces]
    dsimp only
    rw [plain]
    rfl
  cases settles with
  | stop _ => exact here.symm
  | next found _ =>
    rw [here, unbroken] at found
    cases found

-- The blank lines that a plain scalar passes.
theorem plain_breaks_settles (fuel : Nat) (c e : Cursor) (settles : Settles c e)
    (enough : c.rest.length < fuel) :
    Settles (plainBreaks fuel c).2 e ∧ ((plainBreaks fuel c).1 = none ∨
      (plainBreaks fuel c).2.looksAt (· == '#') = true ∨ (plainBreaks fuel c).2 = e) := by
  induction fuel generalizing c with
  | zero => exact absurd enough (Nat.not_lt_zero _)
  | succ fuel ih =>
    unfold plainBreaks
    dsimp only
    cases found : (c.skip (· == ' ')).lineBreak? with
    | none =>
      have settled := settles_skip settles
      refine ⟨settled, .inr ?_⟩
      dsimp only
      cases plain : (c.skip (· == ' ')).looksAt (· == '#') with
      | true => exact .inl rfl
      | false => exact .inr (settles_here settled (skip_idempotent _ _) found plain)
    | some hit =>
      obtain ⟨b, d⟩ := hit
      have settled := settles_break settles found
      have shorter := line_break_length_lt found
      have within := skip_length_le (· == ' ') c
      obtain ⟨further, ends⟩ := ih d settled (by omega)
      dsimp only
      split
      · exact ⟨settled, .inl rfl⟩
      · refine ⟨further, ?_⟩
        rcases ends with none | remark | same
        · exact .inl (by rw [none]; rfl)
        · exact .inr (.inl remark)
        · exact .inr (.inr same)

theorem plain_breaks_length_le (fuel : Nat) (c : Cursor) :
    (plainBreaks fuel c).2.rest.length ≤ c.rest.length := by
  induction fuel generalizing c with
  | zero => exact Nat.le_refl _
  | succ fuel ih =>
    have within := skip_length_le (· == ' ') c
    unfold plainBreaks
    dsimp only
    cases found : (c.skip (· == ' ')).lineBreak? with
    | none => exact within
    | some hit =>
      obtain ⟨b, d⟩ := hit
      have shorter := line_break_length_lt found
      dsimp only
      split
      · dsimp only
        omega
      · have further := ih d
        dsimp only
        omega

theorem plain_gap_length_le (c : Cursor) : (plainGap c).after.rest.length ≤ c.rest.length := by
  have within := skip_length_le (· == ' ') c
  have spanned : c.span (· == ' ') = ((c.span (· == ' ')).1, c.skip (· == ' ')) := rfl
  unfold plainGap
  rw [spanned]
  dsimp only
  cases found : (c.skip (· == ' ')).lineBreak? with
  | none => exact within
  | some hit =>
    obtain ⟨b, d⟩ := hit
    have shorter := line_break_length_lt found
    have rounds := plain_breaks_length_le (d.rest.length + 1) d
    dsimp only
    split
    · dsimp only
      omega
    · revert rounds
      cases plainBreaks (d.rest.length + 1) d with
      | mk breaks after =>
        intro rounds
        dsimp only at rounds
        cases breaks <;> dsimp only <;> omega

-- At the end of a line a plain scalar looks over blank lines, and stays before a comment, before a
-- mark, or where the line after them begins.
theorem plain_gap_settles (c e : Cursor) (settles : Settles c e) {r : Text} (feed : c.rest = '\n' :: r) :
    (plainGap c).broken = true ∧ Settles (plainGap c).after e ∧ ((plainGap c).text = [] ∨
      (plainGap c).after.looksAt (· == '#') = true ∨ (plainGap c).after = e) := by
  have broken := line_break_of_feed feed
  have spaces : c.span (· == ' ') = ([], c) :=
    span_none (· == ' ') (by rw [feed]; rfl)
  have skipped : c.skip (· == ' ') = c := congrArg (·.2) spaces
  have settled : Settles c.step e := settles_break settles (by rw [skipped]; exact broken)
  have rounds := plain_breaks_settles (c.step.rest.length + 1) c.step e settled (Nat.lt_succ_self _)
  unfold plainGap
  rw [spaces]
  dsimp only
  rw [broken]
  dsimp only
  split
  · exact ⟨rfl, settled, .inl rfl⟩
  · revert rounds
    cases plainBreaks (c.step.rest.length + 1) c.step with
    | mk breaks after =>
      intro rounds
      cases breaks with
      | none => exact ⟨rfl, rounds.1, .inl rfl⟩
      | some breaks =>
        refine ⟨rfl, rounds.1, .inr ?_⟩
        rcases rounds.2 with none | ends
        · cases none
        · exact ends

end PipelineMigration.Yaml
