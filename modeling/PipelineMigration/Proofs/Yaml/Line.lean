import PipelineMigration.Proofs.Yaml.Quoted
import PipelineMigration.Proofs.Yaml.Settle
set_option autoImplicit false

/- Scalars without quotes are read back: words with a space between each two, to the end of the line,
   or a single word before the colon that makes it a key. -/
namespace PipelineMigration.Yaml

open Cursor

/-- A run of characters without gaps that neither begins a comment nor ends in a colon. -/
def isPlainWord (w : Text) : Bool :=
  !w.isEmpty && w.head? != some '#' && w.all (fun x => !isGap x) && w.getLast? != some ':'

/-- Words with a space between each two. -/
inductive PlainText : Text → Prop
  | word {w : Text} : isPlainWord w = true → PlainText w
  | more {w t : Text} : isPlainWord w = true → PlainText t → PlainText (w ++ ' ' :: t)

section Word

variable {w : Text} (word : isPlainWord w = true)

include word

theorem plain_word_ne_nil : w ≠ [] := by
  rintro rfl
  cases word

theorem plain_word_gapless : ∀ x ∈ w, isGap x = false := by
  simp only [isPlainWord, Bool.and_eq_true, List.all_eq_true, Bool.not_eq_true'] at word
  exact word.1.2

theorem plain_word_last : w.getLast? ≠ some ':' := by
  simp only [isPlainWord, Bool.and_eq_true, bne_iff_ne] at word
  exact word.2

theorem plain_word_head {c : Cursor} {after : Text} (rest : c.rest = w ++ after) :
    c.looksAt (· == '#') = false := by
  have nonempty := plain_word_ne_nil word
  simp only [isPlainWord, Bool.and_eq_true, bne_iff_ne] at word
  obtain ⟨x, r, rfl⟩ := List.exists_cons_of_ne_nil nonempty
  have other : x ≠ '#' := fun same => word.1.1.2 (congrArg some same)
  simp [Cursor.looksAt, rest, other]

end Word

-- A run of a plain scalar takes a word up to what ends it.
theorem plain_run_word (w after : Text) (gapless : ∀ x ∈ w, isGap x = false) (last : w.getLast? ≠ some ':')
    (ends : plainRun false after = 0) : plainRun false (w ++ after) = w.length := by
  induction w with
  | nil => exact ends
  | cons x r ih =>
    have bare := gapless x List.mem_cons_self
    have inside : (x == ':' && partsHere false (r ++ after)) = false := by
      cases r with
      | nil =>
        have other : x ≠ ':' := fun same => last (congrArg some same)
        simp [other]
      | cons y t =>
        have next := gapless y (List.mem_cons_of_mem _ List.mem_cons_self)
        simp [partsHere, next]
    have tail : r.getLast? ≠ some ':' := by
      cases r with
      | nil => simp
      | cons y t => simpa [List.getLast?_cons_cons] using last
    rw [List.cons_append, plainRun, bare, inside, ih (fun y later => gapless y (List.mem_cons_of_mem _ later)) tail]
    simp [Nat.add_comm]

theorem plain_run_gap (x : Char) (r : Text) (gap : isGap x = true) : plainRun false (x :: r) = 0 := by
  simp [plainRun, gap]

theorem plain_run_colon (r : Text) (gap : endsWord r = true) : plainRun false (':' :: r) = 0 := by
  have parts : partsHere false r = true := by
    unfold endsWord at gap
    cases r with
    | nil => rfl
    | cons y t => simpa [partsHere] using gap
  simp [plainRun, parts]

-- One word of a plain scalar and the gap after it.
theorem plain_word_step (indent : Int) (budget : Nat) (fresh : Bool) (gap : Text) (c : Cursor)
    (w after : Text) (word : isPlainWord w = true) (rest : c.rest = w ++ after)
    (ends : plainRun false after = 0) : plain false indent (budget + 1) fresh gap c =
      let g := plainGap (c.advance w.length)
      if g.text.isEmpty || g.after.looksAt (· == '#') || (g.after.column : Int) < indent then
        (gap ++ w, g.after, g.broken)
      else
        let (more, d, later) := plain false indent budget g.broken g.text g.after
        (gap ++ w ++ more, d, later) := by
  have run := plain_run_word w after (plain_word_gapless word) (plain_word_last word) ends
  have taken : (w ++ after).take w.length = w := List.take_left
  have some : w.length ≠ 0 := fun none => plain_word_ne_nil word (List.eq_nil_of_length_eq_zero none)
  rw [plain.eq_2, plain_word_head word rest]
  dsimp only
  rw [if_neg Bool.false_ne_true, rest, run, if_neg some, taken]
  rfl

-- A word that a colon and a gap follow is read without them.
theorem plain_key_reads (indent : Int) (budget : Nat) (c : Cursor) (w r : Text)
    (word : isPlainWord w = true) (rest : c.rest = w ++ ':' :: r) (gap : endsWord r = true) :
    plain false indent (budget + 1) false [] c = (w, c.advance w.length, false) := by
  have left := advance_run_rest rest
  have spaces : (c.advance w.length).span (· == ' ') = ([], c.advance w.length) :=
    span_none (· == ' ') (by rw [left]; rfl)
  have unbroken : (c.advance w.length).lineBreak? = none := line_break_none (by rw [left]; rfl)
  have gone : plainGap (c.advance w.length) = ⟨[], c.advance w.length, false⟩ := by
    unfold plainGap
    rw [spaces]
    dsimp only
    rw [unbroken]
  rw [plain_word_step indent budget false [] c w _ word rest (plain_run_colon r gap), gone]
  rfl

theorem plain_text_first {t : Text} (words : PlainText t) :
    ∃ x r, t = x :: r ∧ isGap x = false ∧ x ≠ '#' := by
  have first {w : Text} (word : isPlainWord w = true) (after : Text) :
      ∃ x r, w ++ after = x :: r ∧ isGap x = false ∧ x ≠ '#' := by
    have gapless := plain_word_gapless word
    have head := plain_word_head word (c := { rest := w ++ [] }) rfl
    obtain ⟨x, r, rfl⟩ := List.exists_cons_of_ne_nil (plain_word_ne_nil word)
    exact ⟨x, r ++ after, rfl, gapless x List.mem_cons_self, by simpa [Cursor.looksAt] using head⟩
  cases words with
  | word word => simpa using first word []
  | more word _ => exact first word _

-- A space before a word is a gap on the line.
theorem plain_gap_space {c : Cursor} {y : Char} {u : Text} (rest : c.rest = ' ' :: y :: u)
    (bare : isGap y = false) : plainGap c = ⟨[' '], c.step, false⟩ := by
  have left : c.step.rest = y :: u := by
    rw [step_rest, rest]
    rfl
  have space : y ≠ ' ' := by
    rintro rfl
    cases bare
  have spaces : c.span (· == ' ') = ([' '], c.step) := by
    have spaced : c.rest = [' '] ++ (y :: u) := rest
    exact span_run (· == ' ') spaced (by simp) (by simp [space])
  have unbroken : c.step.lineBreak? = none := by
    refine line_break_none ?_
    rw [left]
    have here : isBreak y = false := by simp_all [isGap]
    simp [here]
  unfold plainGap
  rw [spaces]
  dsimp only
  rw [unbroken]

-- Words that end their line are read whole. Nothing on later lines belongs to them when what comes
-- there is not indented deeper.
theorem plain_leaf_reads {t : Text} (words : PlainText t) (indent : Int) (budget : Nat) (fresh : Bool)
    (gap : Text) (c : Cursor) (r : Text) (rest : c.rest = t ++ '\n' :: r) (enough : t.length ≤ budget)
    (inside : indent ≤ c.column)
    (stops : let g := plainGap (c.advance t.length)
      (g.text.isEmpty || g.after.looksAt (· == '#') || (g.after.column : Int) < indent) = true) :
    plain false indent budget fresh gap c = (gap ++ t, (plainGap (c.advance t.length)).after,
      (plainGap (c.advance t.length)).broken) := by
  induction words generalizing budget fresh gap c with
  | @word w word =>
    have positive := List.length_pos_iff.2 (plain_word_ne_nil word)
    obtain ⟨budget, rfl⟩ := Nat.exists_eq_succ_of_ne_zero (n := budget) (by omega)
    rw [plain_word_step indent budget fresh gap c w _ word rest (plain_run_gap _ r rfl)]
    dsimp only at stops ⊢
    rw [if_pos stops]
  | @more w t word rest' ih =>
    have positive := List.length_pos_iff.2 (plain_word_ne_nil word)
    rw [List.length_append, List.length_cons] at enough
    obtain ⟨budget, rfl⟩ := Nat.exists_eq_succ_of_ne_zero (n := budget) (by omega)
    have rest : c.rest = w ++ ' ' :: (t ++ '\n' :: r) := by rw [rest]; simp
    have left := advance_run_rest rest
    have further : (c.advance w.length).step.rest = t ++ '\n' :: r := by
      rw [step_rest, left]
      rfl
    obtain ⟨y, u, rfl, bare, other⟩ := plain_text_first rest'
    have column : c.column ≤ (c.advance w.length).step.column := by
      have wordOnLine : ∀ x ∈ w, isBreak x = false := fun x member => by
        have gapless := plain_word_gapless word x member
        simp_all [isGap]
      rw [step_column _ ' ' _ left (by decide) (by decide)]
      exact Nat.le_succ_of_le (advance_run_line rest wordOnLine).2
    have goes : (false || (c.advance w.length).step.looksAt (· == '#') ||
        decide (((c.advance w.length).step.column : Int) < indent)) = false := by
      have remark : (c.advance w.length).step.looksAt (· == '#') = false := by
        simp [Cursor.looksAt, further, other]
      rw [remark, Bool.false_or, Bool.false_or, decide_eq_false_iff_not]
      omega
    have whole : c.advance (w ++ ' ' :: y :: u).length = (c.advance w.length).step.advance (y :: u).length := by
      rw [← advance_succ, ← advance_add]
      congr 1
      simp only [List.length_append, List.length_cons]
    rw [whole] at stops ⊢
    rw [plain_word_step indent budget fresh gap c w _ word rest (plain_run_gap _ _ rfl), plain_gap_space left bare]
    dsimp only [List.isEmpty_cons]
    rw [if_neg (by rw [goes]; exact Bool.false_ne_true), ih budget false [' '] _ further (by omega) (by omega) stops]
    simp

end PipelineMigration.Yaml

/- Lines of a block document and the tokens they stand for. A line is an item of a list, or an entry of
   a mapping, which may be the first of an item; where it begins decides which collections it closes and
   whether it opens one. -/
namespace PipelineMigration.Yaml

/-- A scalar as it is written. -/
inductive Written where
  | plain (s : Text)
  | double (s : Text)
  | single (s : Text)

namespace Written

def text : Written → Text
  | plain s => s
  | double s => quote s
  | single s => singleQuote s

noncomputable def token : Written → Token
  | plain s => .scalar s true
  | double s => .scalar s false
  | single s => .scalar (singleText s) false

/-- Whether the scalar is what is read where it is written, its line breaks apart. -/
def Fits : Written → Prop
  | plain s => PlainText s ∧ (∃ x r, s = x :: r ∧ Scan.indicators.contains x = false) ∧ s.all isAllowed = true
  | _ => True

/-- Whether no line break in it is followed by a mark between documents. -/
def isUnmarked : Written → Bool
  | single s => !meetsMark s
  | _ => true

end Written

/-- What an entry has on its own line. -/
inductive Leaf where
  | scalar (w : Written)
  /-- Scalars in double quotes inside brackets. -/
  | list (items : List Text)
  | emptyMapping

namespace Leaf

def text : Leaf → Text
  | scalar w => w.text
  | list items => quotedList items
  | emptyMapping => "\x7b\x7d"

/-- The tokens of items, a comma between each two. -/
def itemTokens : List Text → List Token
  | [] => []
  | [s] => [.scalar s false]
  | s :: rest => .scalar s false :: .flowEntry :: itemTokens rest

noncomputable def tokens : Leaf → List Token
  | scalar w => [w.token]
  | list items => .flowSequenceStart :: itemTokens items ++ [.flowSequenceEnd]
  | emptyMapping => [.flowMappingStart, .flowMappingEnd]

def Fits : Leaf → Prop
  | scalar w => w.Fits
  | _ => True

def isUnmarked : Leaf → Bool
  | scalar w => w.isUnmarked
  | _ => true

end Leaf

structure Key where
  name : Text
  /-- Whether it stands without quotes. -/
  bare : Bool

namespace Key

def text (k : Key) : Text := if k.bare then k.name else quote k.name
def token (k : Key) : Token := .scalar k.name k.bare
def Fits (k : Key) : Prop := k.bare = true → Text.isIdentifier k.name = true

/-- A key is not looked for over more than 1024 characters. -/
def isShort (k : Key) : Bool := k.text.length ≤ 1024

end Key

inductive Line where
  | item (column : Nat) (w : Written)
  | entry (column : Nat) (dash : Bool) (key : Key) (leaf : Option Leaf)

/-- The open collections by their columns, innermost first. -/
abbrev Stack := List Nat

namespace Stack

def top : Stack → Int
  | [] => -1
  | c :: _ => c

def under : Stack → List Int
  | [] => []
  | _ :: rest => top rest :: under rest

/-- What stays open when something begins at a column. -/
def closeTo (column : Nat) (stack : Stack) : Stack := stack.dropWhile (column < ·)

def enter (column : Nat) (stack : Stack) : Stack := if top stack < column then column :: stack else stack

/-- The token of a collection that begins at a column. -/
def opening (column : Nat) (t : Token) (stack : Stack) : List Token := if top stack < column then [t] else []

def ends (column : Nat) (stack : Stack) : List Token :=
  (stack.takeWhile (column < ·)).map fun _ => .blockEnd

end Stack

namespace Line

def column : Line → Nat
  | item column _ => column
  | entry column _ _ _ => column

/-- The innermost column that the line opens or stands in. -/
def inner : Line → Nat
  | item column _ => column
  | entry column dash _ _ => if dash then column + 2 else column

def dashText (dash : Bool) : Text := if dash then "- " else []

def leafText : Option Leaf → Text
  | none => []
  | some l => ' ' :: l.text

def content : Line → Text
  | item _ w => "- ".toList ++ w.text
  | entry _ dash key leaf => dashText dash ++ key.text ++ ':' :: leafText leaf

def text (l : Line) : Text := List.replicate l.column ' ' ++ l.content

noncomputable def leafTokens : Option Leaf → List Token
  | none => []
  | some l => l.tokens

/-- The tokens of a line inside open collections that it does not close. -/
noncomputable def tokens (stack : Stack) : Line → List Token
  | item column w => stack.opening column .blockSequenceStart ++ [.blockEntry, w.token]
  | entry column dash key leaf =>
    (if dash then stack.opening column .blockSequenceStart ++ [.blockEntry, .blockMappingStart]
      else stack.opening column .blockMappingStart) ++ [.key, key.token, .value] ++ leafTokens leaf

/-- The open collections after it. -/
def after (stack : Stack) : Line → Stack
  | item column _ => stack.enter column
  | entry column dash _ _ => if dash then (column + 2) :: stack.enter column else stack.enter column

def Fits : Line → Prop
  | item _ w => w.Fits
  | entry _ _ key leaf => key.Fits ∧ ∀ l ∈ leaf, l.Fits

/-- Whether nothing in the line keeps it from being read. -/
def isReadable : Line → Bool
  | item _ w => w.isUnmarked
  | entry _ _ key leaf => key.isShort && leaf.all (·.isUnmarked)

@[simp]
theorem item_readable (column : Nat) (w : Written) : (item column w).isReadable = w.isUnmarked := rfl

@[simp]
theorem entry_readable (column : Nat) (dash : Bool) (k : Key) (leaf : Option Leaf) :
    (entry column dash k leaf).isReadable = (k.isShort && leaf.all (·.isUnmarked)) := rfl

/-- Whether the line ends in a plain scalar, which goes on on deeper lines. -/
def endsPlain : Line → Bool
  | item _ (.plain _) => true
  | entry _ _ _ (some (.scalar (.plain _))) => true
  | _ => false

end Line

/-- The tokens of lines inside open collections, all of which end with them. -/
noncomputable def spell (stack : Stack) : List Line → List Token
  | [] => stack.map fun _ => .blockEnd
  | l :: rest => stack.ends l.column ++ l.tokens (stack.closeTo l.column) ++
      spell (l.after (stack.closeTo l.column)) rest

/-- Lines of which none goes on a plain scalar of the line before it. -/
def Flows : List Line → Prop
  | [] => True
  | [_] => True
  | l :: m :: rest => (l.endsPlain = true → m.column ≤ l.inner) ∧ Flows (m :: rest)

-- What can stand in an identifier has no other meaning.
theorem identifier_char (x : Char) (rest : Text.isIdentifierRest x = true) :
    isGap x = false ∧ Scan.indicators.contains x = false ∧ x ≠ '.' := by
  refine ⟨Bool.eq_false_iff.2 fun gap => ?_, Bool.eq_false_iff.2 fun mark => ?_, ?_⟩
  · simp only [isGap, isTabOrSpace, isBreak, Bool.or_eq_true, beq_iff_eq] at gap
    rcases gap with (rfl | rfl) | ((((rfl | rfl) | rfl) | rfl) | rfl) <;> exact absurd rest (by decide)
  · have member : x ∈ Scan.indicators := by simpa using mark
    have none : (Scan.indicators.all fun y => !Text.isIdentifierRest y) = true := by decide
    have other := List.all_eq_true.1 none x member
    rw [rest] at other
    cases other
  · rintro rfl
    exact absurd rest (by decide)

theorem identifier_start_rest (x : Char) (start : Text.isIdentifierStart x = true) :
    Text.isIdentifierRest x = true := by
  unfold Text.isIdentifierStart at start
  unfold Text.isIdentifierRest
  rcases Bool.or_eq_true_iff.1 start with letter | low <;> simp [*]

theorem identifier_chars (name : Text) (identifier : Text.isIdentifier name = true) :
    name ≠ [] ∧ ∀ x ∈ name, Text.isIdentifierRest x = true := by
  cases name with
  | nil => cases identifier
  | cons x r =>
    simp only [Text.isIdentifier, Bool.and_eq_true, List.all_eq_true] at identifier
    exact ⟨by simp, List.forall_mem_cons.2 ⟨identifier_start_rest x identifier.1, identifier.2⟩⟩

theorem name_plain_word (name : Text) (nonempty : name ≠ [])
    (chars : ∀ x ∈ name, Text.isIdentifierRest x = true) : isPlainWord name = true := by
  have unlike (y : Char) (mark : Scan.indicators.contains y = true) : y ∉ name := fun member =>
    Bool.noConfusion (mark.symm.trans (identifier_char y (chars y member)).2.1)
  have head : name.head? ≠ some '#' := fun same => unlike '#' rfl (List.mem_of_head? same)
  have last : name.getLast? ≠ some ':' := fun same => unlike ':' rfl (List.mem_of_getLast? same)
  have gapless : name.all (fun x => !isGap x) = true :=
    List.all_eq_true.2 fun x member => by simp [(identifier_char x (chars x member)).1]
  simp only [isPlainWord, Bool.and_eq_true, bne_iff_ne, Bool.not_eq_true', List.isEmpty_eq_false_iff]
  exact ⟨⟨⟨nonempty, head⟩, gapless⟩, last⟩

theorem identifier_plain_word (name : Text) (identifier : Text.isIdentifier name = true) :
    isPlainWord name = true :=
  name_plain_word name (identifier_chars name identifier).1 (identifier_chars name identifier).2

theorem key_unbroken (k : Key) (fits : k.Fits) : ∀ x ∈ k.text, isBreak x = false := by
  unfold Key.text
  split
  · rename_i bare
    intro x member
    have gapless := (identifier_char x ((identifier_chars _ (fits bare)).2 x member)).1
    simp_all [isGap]
  · exact fun x member => (quote_clean k.name x member).1

theorem key_text_ne_nil (k : Key) (fits : k.Fits) : k.text ≠ [] := by
  unfold Key.text
  split
  · rename_i bare
    exact (identifier_chars _ (fits bare)).1
  · simp [quote]

end PipelineMigration.Yaml
