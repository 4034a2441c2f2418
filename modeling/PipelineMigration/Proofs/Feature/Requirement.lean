import PipelineMigration.Feature.Stage
import PipelineMigration.Proofs.Pattern.Stretch
set_option autoImplicit false

/- Conditions of a `when` block: how a script spells them, and what the search for guards makes of them. It finds the
   tests and not how they are connected. -/
namespace PipelineMigration.Feature

open Pattern

section Syntax

/-- What a script tests before a stage. -/
inductive Test where
  | branch (glob : Text)
  | setting (name value : Text)
  | change

inductive Connective where
  | all | any | negation

/-- Tests and connected tests, one after the other. -/
inductive Requirement where
  | none
  | test (t : Test) (rest : Requirement)
  | nested (k : Connective) (inner rest : Requirement)

def Requirement.tests : Requirement → List Test
  | none => []
  | test t rest => t :: rest.tests
  | nested _ inner rest => inner.tests ++ rest.tests

def Test.step : Test → Text
  | branch _ => "branch"
  | setting _ _ => "environment"
  | change => "changeRequest"

def Connective.word : Connective → Text
  | all => "allOf"
  | any => "anyOf"
  | negation => "not"

def Blank (gap : Text) : Prop := ∀ c ∈ gap, Text.isBlank c = true

/-- A literal that says just what stands between its marks, in one line and with no mark inside. -/
structure Literal (mark : Char) (value : Text) : Prop where
  quote : Text.isQuote mark = true
  unquoted : ∀ c ∈ value, Text.isQuote c = false
  line : '\n' ∉ value
  unescaped : '\\' ∉ value
  fixed : mark = '"' → '$' ∉ value

def quoted (mark : Char) (value : Text) : Text := mark :: (value ++ [mark])

/-- The name of an argument and its colon. -/
inductive Label (name : Text) : Text → Prop
  | mk {g h : Text} : Blank g → Blank h → Label name (name ++ g ++ ':' :: h)

inductive Arguments : Test → Text → Prop
  | branch {mark : Char} {glob : Text} : Literal mark glob → Arguments (.branch glob) (quoted mark glob)
  | pattern {l glob : Text} {mark : Char} : Label "pattern" l → Literal mark glob →
      Arguments (.branch glob) (l ++ quoted mark glob)
  | setting {l m g h name value : Text} {mark close : Char} : Label "name" l → Literal mark name → Blank g → Blank h →
      Label "value" m → Literal close value →
      Arguments (.setting name value) (l ++ quoted mark name ++ (g ++ ',' :: h) ++ (m ++ quoted close value))
  | turned {l m g h name value : Text} {mark close : Char} : Label "value" m → Literal close value → Blank g → Blank h →
      Label "name" l → Literal mark name →
      Arguments (.setting name value) (m ++ quoted close value ++ (g ++ ',' :: h) ++ (l ++ quoted mark name))
  | change : Arguments .change []

/-- What follows the name of a step: its arguments, in parentheses or not. -/
inductive Operands (t : Test) : Text → Prop
  | bare {g args : Text} : Blank g → (g = [] → args.head?.any Text.isWord = false) → Arguments t args →
      Operands t (g ++ args)
  | call {g h args k : Text} : Blank g → Blank h → Arguments t args → Blank k →
      Operands t (g ++ '(' :: h ++ args ++ (k ++ [')']))

/-- How the body of a block spells its conditions. -/
inductive Requirement.Written : Requirement → Text → Prop
  | none : Written none []
  | gap {c : Char} {w : Requirement} {s : Text} : Text.isBlank c = true ∨ c = ';' → Written w s → Written w (c :: s)
  | test {t : Test} {w : Requirement} {u s : Text} : Operands t u → s.head?.any Text.isWord = false → Written w s →
      Written (test t w) (t.step ++ u ++ s)
  | nested {k : Connective} {v w : Requirement} {g u s : Text} : Blank g → Written v u → Written w s →
      Written (nested k v w) (k.word ++ (g ++ ['\x7b']) ++ u ++ ['\x7d'] ++ s)

end Syntax

section Values

/-- What a script says in a test. -/
def Test.values : Test → List Text
  | branch glob => [glob]
  | setting name value => [name, value]
  | change => []

/-- What the search may take for a condition where a test says a value. The search for branches passes over the name
    of a branch with the test that says it. -/
def Test.misleading : Test → List Pattern
  | branch _ => [environmentTest, patternStep "tag", tagTest, changeTest]
  | _ => [patternStep "branch", environmentTest, patternStep "tag", tagTest, changeTest]

/-- No value of a test reads as a condition. -/
def Test.Plain (t : Test) : Prop := ∀ a ∈ t.misleading, ∀ value ∈ t.values, Quiet a value

end Values

section Passing

variable {a : Pattern} {word : Text} {Q : Match → Prop} {t : Test} {pre u rest : Text}

/-- The names of arguments. -/
def labels : List Text := ["pattern", "name", "value"]

theorem labels_words : ∀ name ∈ labels, ∀ c ∈ name, Text.isWord c = true := by decide

/-- The names of steps. -/
def steps : List Text := ["branch", "environment", "changeRequest"]

theorem step_among (t : Test) : t.step ∈ steps := by
  cases t with
  | branch glob => exact .head _
  | setting name value => exact .tail _ (.head _)
  | change => exact .tail _ (.tail _ (.head _))

theorem steps_words : ∀ name ∈ steps, ∀ c ∈ name, Text.isWord c = true := by decide

theorem step_words (t : Test) : ∀ c ∈ t.step, Text.isWord c = true := steps_words _ (step_among t)

theorem connective_words (k : Connective) : ∀ c ∈ k.word, Text.isWord c = true := by cases k <;> decide

theorem Blank.wordless {gap : Text} (blank : Blank gap) : ∀ c ∈ gap, Text.isWord c = false :=
  fun c member => Text.blank_no_word (blank c member)

theorem Blank.wordless_between {g h : Text} {c : Char} (blank : Blank g) (between : Text.isWord c = false)
    (blank' : Blank h) : ∀ d ∈ g ++ c :: h, Text.isWord d = false :=
  List.forall_mem_append.2 ⟨blank.wordless, List.forall_mem_cons.2 ⟨between, blank'.wordless⟩⟩

theorem head_wordless {gap : Text} (filled : gap ≠ []) (wordless : ∀ c ∈ gap, Text.isWord c = false) :
    (gap ++ rest).head?.any Text.isWord = false := by
  obtain ⟨c, gap, rfl⟩ := List.exists_cons_of_ne_nil filled
  exact wordless c List.mem_cons_self

variable (opens : Opens a word)

include opens

theorem label_passes {name l : Text} (label : Label name l) (words : ∀ c ∈ name, Text.isWord c = true)
    (other : ¬ word <+: name) : Passes a Q pre l rest := by
  cases label with
  | @mk g h blank blank' =>
    have wordless := blank.wordless_between (show Text.isWord ':' = false by decide) blank'
    rw [List.append_assoc]
    exact (opens.passes_word words other (head_wordless (by simp) wordless)).append (opens.passes_gap wordless)

theorem arguments_pass {args : Text} (others : ∀ name ∈ labels, ¬ word <+: name) (quiet : ∀ value ∈ t.values, Quiet a value)
    (spelled : Arguments t args) : Passes a Q pre args rest := by
  have label {name l pre rest : Text} (known : name ∈ labels) (label : Label name l) : Passes a Q pre l rest :=
    label_passes opens label (labels_words name known) (others name known)
  have literal {mark : Char} {value pre rest : Text} (known : value ∈ t.values) (literal : Literal mark value) :
      Passes a Q pre (quoted mark value) rest := opens.passes_quoted literal.quote (quiet value known)
  have comma {g h pre rest : Text} (blank : Blank g) (blank' : Blank h) : Passes a Q pre (g ++ ',' :: h) rest :=
    opens.passes_gap (blank.wordless_between (by decide) blank')
  cases spelled with
  | branch glob => exact literal (.head _) glob
  | pattern l glob => exact (label (.head _) l).append (literal (.head _) glob)
  | setting l name blank blank' m value =>
    exact (((label (by decide) l).append (literal (.head _) name)).append (comma blank blank')).append
      ((label (by decide) m).append (literal (.tail _ (.head _)) value))
  | turned m value blank blank' l name =>
    exact (((label (by decide) m).append (literal (.tail _ (.head _)) value)).append (comma blank blank')).append
      ((label (by decide) l).append (literal (.head _) name))
  | change => exact passes_nothing

theorem operands_pass (others : ∀ name ∈ labels, ¬ word <+: name) (quiet : ∀ value ∈ t.values, Quiet a value)
    (spelled : Operands t u) : Passes a Q pre u rest := by
  cases spelled with
  | bare blank apart args => exact (opens.passes_gap blank.wordless).append (arguments_pass opens others quiet args)
  | @call g h args k blank blank' spelled blank'' =>
    have closing : ∀ c ∈ k ++ [')'], Text.isWord c = false := blank''.wordless_between (by decide) nofun
    have opening : ∀ c ∈ g ++ '(' :: h, Text.isWord c = false := blank.wordless_between (by decide) blank'
    exact ((opens.passes_gap opening).append (arguments_pass opens others quiet spelled)).append (opens.passes_gap closing)

omit opens in
theorem operands_head (spelled : Operands t u) (ends : rest.head?.any Text.isWord = false) :
    (u ++ rest).head?.any Text.isWord = false := by
  cases spelled with
  | @bare g args blank apart spelled =>
    cases g with
    | nil =>
      cases args with
      | nil => exact ends
      | cons c args => exact apart rfl
    | cons c g => exact blank.wordless c List.mem_cons_self
  | @call g h args k blank blank' spelled blank'' =>
    rw [List.append_assoc, List.append_assoc]
    exact head_wordless (by simp) (blank.wordless_between (by decide) blank')

-- A test is passed over by a search for another word.
theorem test_passes (other : ¬ word <+: t.step) (others : ∀ name ∈ labels, ¬ word <+: name)
    (quiet : ∀ value ∈ t.values, Quiet a value) (spelled : Operands t u) (ends : rest.head?.any Text.isWord = false) :
    Passes a Q pre (t.step ++ u) rest :=
  (opens.passes_word (step_words t) other (operands_head spelled ends)).append (operands_pass opens others quiet spelled)

-- What a search finds in tests it finds in a block of them.
theorem written_passes {R : Test → Match → Prop} (apart : ∀ k : Connective, ¬ word <+: k.word)
    (each : ∀ (t : Test) (u pre rest : Text), t.Plain → Operands t u → pre.getLast?.any Text.isWord = false →
      rest.head?.any Text.isWord = false → Passes a (R t) pre (t.step ++ u) rest)
    {w : Requirement} {s : Text} (written : w.Written s) (plain : ∀ t ∈ w.tests, t.Plain)
    (begins : s.head?.any Text.isWord = true → pre.getLast?.any Text.isWord = false)
    (ends : rest.head?.any Text.isWord = false) : Passes a (fun m => ∃ t ∈ w.tests, R t m) pre s rest := by
  induction written generalizing pre rest with
  | none => exact passes_nothing
  | @gap c w s gap written ih =>
    have wordless : Text.isWord c = false := gap.elim Text.blank_no_word fun same => by rw [same]; decide
    refine Passes.append (u := [c]) (opens.passes_gap (by simpa using wordless)) (ih plain (fun _ => ?_) ends)
    rw [last_append_one]
    exact wordless
  | @test t w u s spelled next written ih =>
    have outside : pre.getLast?.any Text.isWord = false := begins (by cases t <;> rfl)
    have behind : (s ++ rest).head?.any Text.isWord = false := by
      cases s with
      | nil => exact ends
      | cons c s => exact next
    have own := each t u pre (s ++ rest) (plain t (.head _)) spelled outside behind
    refine (own.mono fun m held => ⟨t, .head _, held⟩).append
      ((ih (fun t member => plain t (.tail _ member)) (fun letter => ?_) ends).mono ?_)
    · rw [next] at letter
      cases letter
    · rintro m ⟨t, member, held⟩
      exact ⟨t, .tail _ member, held⟩
  | @nested k v w g u s blank inner outer first second =>
    have opening : ∀ c ∈ g ++ ['\x7b'], Text.isWord c = false := blank.wordless_between (by decide) nofun
    have closing : ∀ c ∈ ['\x7d'], Text.isWord c = false := by decide
    have within : ∀ t ∈ v.tests, t.Plain := fun t member => plain t (List.mem_append_left _ member)
    have after : ∀ t ∈ w.tests, t.Plain := fun t member => plain t (List.mem_append_right _ member)
    refine Passes.append (Passes.append (Passes.append (Passes.append ?_ (opens.passes_gap opening)) ?_)
      (opens.passes_gap closing)) ?_
    · exact opens.passes_word (connective_words k) (apart k) (head_wordless (by simp) opening)
    · refine (first within (fun _ => ?_) rfl).mono fun m => ?_
      · rw [← List.append_assoc, ← List.append_assoc, last_append_one]
        decide
      · rintro ⟨t, member, held⟩
        exact ⟨t, List.mem_append_left _ member, held⟩
    · refine (second after (fun _ => ?_) ends).mono fun m => ?_
      · rw [← List.append_assoc, last_append_one]
        decide
      · rintro ⟨t, member, held⟩
        exact ⟨t, List.mem_append_right _ member, held⟩

end Passing
end PipelineMigration.Feature
