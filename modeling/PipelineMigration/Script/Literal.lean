import PipelineMigration.Text.Alphabet
set_option autoImplicit false

/- String literals of a script. A literal in single marks runs to its closing mark or to the end
   of its line, a backslash guarding the character after it; a literal in three marks runs to
   the next three. An unclosed literal runs to the end of the text. -/
namespace PipelineMigration.Script

/-- The length of what follows the opening mark, up to and with what closes it. -/
def closeLength (mark : Char) : Text → Nat
  | [] => 0
  | '\\' :: [] => 1
  | '\\' :: _ :: r => 2 + closeLength mark r
  | c :: r => if c == mark || c == '\n' then 1 else 1 + closeLength mark r

theorem closeLength_le (mark : Char) (s : Text) : closeLength mark s ≤ s.length := by
  fun_induction closeLength mark s <;> grind

/-- The length of the literal that the first character opens. -/
def literalLength : Text → Nat
  | [] => 0
  | mark :: r =>
    if [mark, mark].isPrefixOf r then
      let body := r.drop 2
      3 + match Text.indexOf? body [mark, mark, mark] with
        | some k => k + 3
        | none => body.length
    else 1 + closeLength mark r

theorem literalLength_pos (c : Char) (r : Text) : 0 < literalLength (c :: r) := by
  simp only [literalLength]; split <;> omega

/-- A literal does not go beyond the text. -/
theorem literalLength_le (s : Text) : literalLength s ≤ s.length := by
  cases s with
  | nil => simp [literalLength]
  | cons mark r =>
    simp only [literalLength, List.length_cons]
    split
    · rename_i opening
      have opened := (List.isPrefixOf_iff_prefix.1 opening).length_le
      simp only [List.length_cons, List.length_nil] at opened
      split
      · rename_i k found
        have := Text.indexOf?_add_length_le found
        simp only [List.length_drop, List.length_cons, List.length_nil] at this
        change 3 + (k + 3) ≤ r.length + 1
        omega
      · simp only [List.length_drop]
        change 3 + (r.length - 2) ≤ r.length + 1
        omega
    · have := closeLength_le mark r
      omega

/-- The characters outside literals; those of a literal are left out but keep their places.
    `skip` characters still belong to a literal. -/
def codeFrom : Nat → Text → List (Option Char)
  | _, [] => []
  | skip + 1, _ :: r => none :: codeFrom skip r
  | 0, c :: r =>
    if Text.isQuote c then none :: codeFrom (literalLength (c :: r) - 1) r
    else some c :: codeFrom 0 r

def code (s : Text) : List (Option Char) := codeFrom 0 s

theorem length_codeFrom (skip : Nat) (s : Text) : (codeFrom skip s).length = s.length := by
  fun_induction codeFrom skip s <;> simp_all

/-- Every character keeps its place. -/
theorem length_code (s : Text) : (code s).length = s.length := length_codeFrom 0 s

/- Comments are blanked: every character of a comment but a line feed becomes a space, so that
   indices and line numbers stay. Literals are kept whole. -/

/-- The length of a block comment, its opening included; an unclosed one runs to the end. -/
def blockCommentLength (s : Text) : Nat :=
  match Text.indexOf? (s.drop 2) "*/" with
  | some k => k + 4
  | none => s.length

def lineCommentLength (s : Text) : Nat := (s.takeWhile (· != '\n')).length

def blank (c : Char) : Char := if c == '\n' then '\n' else ' '

/-- `left` characters still belong to a literal, which is copied, or to a comment, which is
    blanked. -/
def stripFrom (blanking : Bool) : Nat → Text → Text
  | _, [] => []
  | left + 1, c :: r => (if blanking then blank c else c) :: stripFrom blanking left r
  | 0, c :: r =>
    if Text.isQuote c then c :: stripFrom false (literalLength (c :: r) - 1) r
    else if c == '/' && r.head? == some '/' then
      ' ' :: stripFrom true (lineCommentLength (c :: r) - 1) r
    else if c == '/' && r.head? == some '*' then
      ' ' :: stripFrom true (blockCommentLength (c :: r) - 1) r
    else c :: stripFrom false 0 r

def stripComments (s : Text) : Text := stripFrom false 0 s

theorem length_stripFrom (blanking : Bool) (left : Nat) (s : Text) :
    (stripFrom blanking left s).length = s.length := by
  fun_induction stripFrom blanking left s <;> simp_all

theorem length_stripComments (s : Text) : (stripComments s).length = s.length :=
  length_stripFrom false 0 s

end PipelineMigration.Script
