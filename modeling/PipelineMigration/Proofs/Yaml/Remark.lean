import PipelineMigration.Yaml.Cursor
set_option autoImplicit false

/- When a text that goes into a comment cannot end it. A reader breaks the comment into lines, and all of them are
   comments just when each break in the text is followed by a comment mark. -/
namespace PipelineMigration.Yaml

/-- Whether a character ends a line before a text; a carriage return before a line feed does not. -/
def endsBefore (c : Char) (r : Text) : Bool := isBreak c && !(c == '\r' && r.head? == some '\n')

/-- The lines of a text as a reader breaks it. -/
def readerLines : Text → List Text
  | [] => [[]]
  | c :: r =>
    if endsBefore c r then [] :: readerLines r
    else match readerLines r with
      | [] => [[c]]
      | l :: ls => (c :: l) :: ls

theorem reader_lines_filled (s : Text) : ∃ l ls, readerLines s = l :: ls := by
  cases s with
  | nil => exact ⟨_, _, rfl⟩
  | cons c r =>
    rw [readerLines]
    split
    · exact ⟨_, _, rfl⟩
    · split
      · exact ⟨_, _, rfl⟩
      · exact ⟨_, _, rfl⟩

-- Half of a break at the end of a text waits for what follows; anything before it does not.
theorem ends_before_append {c : Char} {r : Text} (rest : Text) (apart : (c :: r).getLast? ≠ some '\r') :
    endsBefore c (r ++ rest) = endsBefore c r ∧ r.getLast? ≠ some '\r' := by
  cases r with
  | nil =>
    have other : (c == '\r') = false := by simpa using apart
    rw [endsBefore, endsBefore, other]
    exact ⟨rfl, by simp⟩
  | cons d r => exact ⟨rfl, by rwa [List.getLast?_cons_cons] at apart⟩

-- A reader that passes a text is as many lines further as the text has breaks.
theorem advance_lines (s rest : Text) (index line column : Nat) (apart : s.getLast? ≠ some '\r') :
    (Cursor.advance s.length ⟨s ++ rest, index, line, column⟩).line + 1 = line + (readerLines s).length := by
  induction s generalizing index line column with
  | nil => rfl
  | cons c r ih =>
    obtain ⟨same, last⟩ := ends_before_append rest apart
    rw [List.length_cons, Cursor.advance, Cursor.step, readerLines]
    change (Cursor.advance r.length (if endsBefore c (r ++ rest) then _ else _)).line + 1 = _
    rw [same]
    split
    · refine (ih (index + 1) (line + 1) 0 last).trans ?_
      rw [List.length_cons]
      omega
    · refine (ih (index + 1) line _ last).trans ?_
      obtain ⟨l, ls, lines⟩ := reader_lines_filled r
      rw [lines]
      rfl

section Remarks

variable (skipped : Char → Bool)

/-- Whether a text begins with a comment mark, after characters that are passed over. -/
def opensRemark (s : Text) : Bool := (s.dropWhile skipped).head? == some '#'

/-- Whether each break in a text is followed by a comment mark. -/
def isContained : Text → Bool
  | [] => true
  | c :: r => (!endsBefore c r || opensRemark skipped r) && isContained r

/-- Whether all lines of a text are comments. -/
def onlyRemarks (s : Text) : Bool := (readerLines s).all (opensRemark skipped)

variable {skipped} (unbroken : ∀ c, skipped c = true → isBreak c = false)

include unbroken

-- The first line says whether the text begins with a comment mark.
theorem first_line_opens {s l : Text} {ls : List Text} (lines : readerLines s = l :: ls) :
    opensRemark skipped l = opensRemark skipped s := by
  induction s generalizing l ls with
  | nil =>
    obtain ⟨rfl, rfl⟩ := List.cons.inj lines
    rfl
  | cons c r ih =>
    rw [readerLines] at lines
    unfold opensRemark at ih ⊢
    split at lines
    · rename_i ends
      obtain ⟨rfl, rfl⟩ := List.cons.inj lines
      have breaks := (Bool.and_eq_true_iff.1 ends).1
      have kept : ¬ skipped c = true := fun passed => by
        rw [unbroken c passed] at breaks
        cases breaks
      rw [List.dropWhile_cons_of_neg kept]
      have other : (some c == some '#') = false := by
        refine beq_eq_false_iff_ne.2 fun same => ?_
        rw [Option.some.inj same] at breaks
        cases breaks
      exact other.symm
    · obtain ⟨l', ls', more⟩ := reader_lines_filled r
      rw [more] at lines
      obtain ⟨rfl, rfl⟩ := List.cons.inj lines
      by_cases passed : skipped c = true
      · rw [List.dropWhile_cons_of_pos passed, List.dropWhile_cons_of_pos passed]
        exact ih more
      · rw [List.dropWhile_cons_of_neg passed, List.dropWhile_cons_of_neg passed]
        rfl

-- All lines are comments when the text begins with a mark and breaks before marks only.
theorem only_remarks_eq (s : Text) : onlyRemarks skipped s = (opensRemark skipped s && isContained skipped s) := by
  have later (s : Text) : (readerLines s).tail.all (opensRemark skipped) = isContained skipped s := by
    induction s with
    | nil => rfl
    | cons c r ih =>
      obtain ⟨l, ls, more⟩ := reader_lines_filled r
      rw [readerLines, isContained, ← ih, more]
      cases ends : endsBefore c r with
      | true =>
        rw [if_pos rfl, List.tail_cons, List.tail_cons, List.all_cons, first_line_opens unbroken more]
        rfl
      | false => rfl
  obtain ⟨l, ls, lines⟩ := reader_lines_filled s
  rw [onlyRemarks, ← later, lines, List.all_cons, List.tail_cons, first_line_opens unbroken lines]

end Remarks

/-- A text of one line. -/
def OneLine (s : Text) : Prop := ∀ c ∈ s, isBreak c = false

instance (s : Text) : Decidable (OneLine s) := inferInstanceAs (Decidable (∀ c ∈ s, isBreak c = false))

theorem OneLine.append {a b : Text} (first : OneLine a) (second : OneLine b) : OneLine (a ++ b) := fun c member =>
  (List.mem_append.1 member).elim (first c) (second c)

theorem OneLine.sub {a b : Text} (line : OneLine b) (within : ∀ c ∈ a, c ∈ b) : OneLine a := fun c member =>
  line c (within c member)

-- A literal by its characters.
theorem OneLine.literal {s : String} {l : List Char} (same : s = String.ofList l)
    (line : l.all (fun c => !isBreak c) = true) : OneLine s.toList := by
  rw [same, String.toList_ofList]
  exact fun c member => by simpa using List.all_eq_true.1 line c member

theorem literal_head {s : String} {c : Char} {l : List Char} (same : s = String.ofList (c :: l)) :
    s.toList.head? = some c := by
  rw [same, String.toList_ofList]
  rfl

theorem literal_last {front : Text} {s : String} {c : Char} {l : List Char} (same : s = String.ofList l)
    (last : l.getLast? = some c) : (front ++ s.toList).getLast? = some c := by
  rw [same, String.toList_ofList, List.getLast?_append, last]
  rfl

section Contained

variable {skipped : Char → Bool} {a b s : Text}

theorem contained_behind (line : OneLine a) : isContained skipped (a ++ s) = isContained skipped s := by
  induction a with
  | nil => rfl
  | cons c a ih =>
    have here : endsBefore c (a ++ s) = false := by
      rw [endsBefore, line c List.mem_cons_self]
      rfl
    rw [List.cons_append, isContained, here, ih fun d member => line d (List.mem_cons_of_mem c member)]
    rfl

theorem contained_one_line (line : OneLine a) : isContained skipped a = true := by
  rw [← List.append_nil a, contained_behind line]
  rfl

-- A character that neither ends a line nor is passed over nor marks a comment parts two texts.
theorem contained_apart {d : Char} (kept : skipped d = false) (solid : isBreak d = false) (other : d ≠ '#') :
    isContained skipped (s ++ d :: a) = (isContained skipped s && isContained skipped (d :: a)) := by
  induction s with
  | nil => rfl
  | cons c s ih =>
    have ends : endsBefore c (s ++ d :: a) = endsBefore c s := by
      cases s with
      | nil =>
        have feed : (some d == some '\n') = false := beq_eq_false_iff_ne.2 fun same => by
          rw [Option.some.inj same] at solid
          cases solid
        rw [endsBefore, endsBefore]
        change (isBreak c && !(c == '\r' && (some d == some '\n'))) = _
        rw [feed]
        rfl
      | cons e s => rfl
    have opens : opensRemark skipped (s ++ d :: a) = opensRemark skipped s := by
      unfold opensRemark
      rw [List.dropWhile_append, List.dropWhile_cons_of_neg (by rw [kept]; exact Bool.false_ne_true)]
      split
      · rename_i none
        rw [List.isEmpty_iff.1 none]
        exact beq_eq_false_iff_ne.2 fun same => other (Option.some.inj same)
      · rename_i filled
        cases rest : s.dropWhile skipped with
        | nil =>
          rw [rest] at filled
          exact absurd rfl filled
        | cons e r => rfl
    rw [List.cons_append, isContained, isContained, ends, opens, ih, Bool.and_assoc]

-- A text between two that hold no break is contained when it is by itself.
theorem contained_between {d : Char} (front : OneLine a) (back : OneLine b) (head : b.head? = some d)
    (kept : skipped d = false) (other : d ≠ '#') : isContained skipped (a ++ s ++ b) = isContained skipped s := by
  cases b with
  | nil => cases head
  | cons e b =>
    obtain rfl := Option.some.inj head
    rw [List.append_assoc, contained_behind front, contained_apart kept (back e List.mem_cons_self) other,
      contained_one_line back, Bool.and_true]

end Contained

section Joined

-- The lines of joined texts are those of each, unless a text ends in half of a break.
theorem reader_lines_joined (texts : List Text) (filled : texts ≠ [])
    (apart : ∀ s ∈ texts, s.getLast? ≠ some '\r') : readerLines (Text.join "\n" texts) = texts.flatMap readerLines := by
  have broken (s rest : Text) (apart : s.getLast? ≠ some '\r') :
      readerLines (s ++ '\n' :: rest) = readerLines s ++ readerLines rest := by
    induction s with
    | nil =>
      have feed : endsBefore '\n' rest = true := rfl
      change readerLines ('\n' :: rest) = [] :: readerLines rest
      rw [readerLines, if_pos feed]
    | cons c r ih =>
      obtain ⟨ends, last⟩ := ends_before_append ('\n' :: rest) apart
      rw [List.cons_append, readerLines, readerLines, ends, ih last]
      split
      · rfl
      · obtain ⟨l, ls, lines⟩ := reader_lines_filled r
        rw [lines]
        rfl
  induction texts with
  | nil => exact absurd rfl filled
  | cons s texts ih =>
    cases texts with
    | nil => simp [Text.join, List.intercalate]
    | cons t texts =>
      have step : Text.join "\n" (s :: t :: texts) = s ++ '\n' :: Text.join "\n" (t :: texts) := by
        simp [Text.join, List.intercalate]
      rw [step, broken s _ (apart s List.mem_cons_self), List.flatMap_cons,
        ih (List.cons_ne_nil _ _) fun u member => apart u (List.mem_cons_of_mem s member)]

end Joined

end PipelineMigration.Yaml
