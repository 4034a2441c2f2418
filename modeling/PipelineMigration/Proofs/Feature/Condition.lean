import PipelineMigration.Proofs.Feature.Requirement
set_option autoImplicit false

/- What the search for guards finds in a block: the tests of the block and no others, where no value of a test reads
   as a condition. -/
namespace PipelineMigration.Feature

open Pattern

section Openings

theorem opens_pattern {step : String} (filled : step.toList ≠ []) (words : ∀ c ∈ step.toList, Text.isWord c = true) :
    Opens (patternStep step) step.toList := by
  unfold patternStep
  repeat first
    | exact opens_edge filled words
    | refine Opens.then ?_

theorem opens_environment : Opens environmentTest "environment".toList := by
  unfold environmentTest
  repeat first
    | exact opens_edge (by decide) (by decide)
    | refine Opens.then ?_

theorem opens_tag : Opens tagTest "buildingTag".toList := by
  unfold tagTest
  repeat first
    | exact opens_edge (by decide) (by decide)
    | refine Opens.then ?_

theorem opens_change : Opens changeTest "changeRequest".toList := (opens_edge (by decide) (by decide)).then

end Openings

section Words

/-- The words that conditions begin with. -/
def conditionWords : List Text := ["branch", "environment", "tag", "buildingTag", "changeRequest"]

theorem misleading_opens {t : Test} {a : Pattern} (misleads : a ∈ t.misleading) : ∃ word ∈ conditionWords, Opens a word := by
  have all : ∀ a ∈ [patternStep "branch", environmentTest, patternStep "tag", tagTest, changeTest],
      ∃ word ∈ conditionWords, Opens a word := by
    simp only [List.forall_mem_cons]
    exact ⟨⟨_, .head _, opens_pattern (by decide) (by decide)⟩, ⟨_, .tail _ (.head _), opens_environment⟩,
      ⟨_, .tail _ (.tail _ (.head _)), opens_pattern (by decide) (by decide)⟩,
      ⟨_, .tail _ (.tail _ (.tail _ (.head _))), opens_tag⟩,
      ⟨_, .tail _ (.tail _ (.tail _ (.tail _ (.head _)))), opens_change⟩, nofun⟩
  cases t with
  | branch glob => exact all a (.tail _ misleads)
  | setting name value => exact all a misleads
  | change => exact all a misleads

-- A value in which none of the words stands reads as no condition.
theorem plain_of_absent {t : Test} (absent : ∀ value ∈ t.values, ∀ word ∈ conditionWords, ¬ word <:+: value) : t.Plain := by
  intro a misleads value member
  obtain ⟨word, known, opens⟩ := misleading_opens misleads
  exact opens.quiet (absent value member word known)

end Words

section Taken

variable {before : Option Char} {taken rest : Text} {k : Texts}

def Unquoted (s : Text) : Prop := ∀ c ∈ s, Text.isQuote c = false

theorem Blank.unquoted {gap : Text} (blank : Blank gap) : Unquoted gap := fun c member => Text.blank_no_quote (blank c member)

theorem Unquoted.append {s t : Text} (first : Unquoted s) (second : Unquoted t) : Unquoted (s ++ t) :=
  List.forall_mem_append.2 ⟨first, second⟩

theorem Label.unquoted {name l : Text} (label : Label name l) (plain : Unquoted name) : Unquoted l := by
  cases label with
  | mk blank blank' =>
    exact (plain.append blank.unquoted).append (List.forall_mem_cons.2 ⟨by decide, blank'.unquoted⟩)

/-- What stands between the name of a step and the literal it takes. -/
inductive Front : Text → Prop
  | mk {g o h n : Text} : Blank g → o = [] ∨ o = ['('] → Blank h → n = [] ∨ Label "pattern" n → Front (g ++ o ++ h ++ n)

theorem Front.unquoted {front : Text} (held : Front front) : Unquoted front := by
  cases held with
  | @mk g o h n blank open_ blank' name =>
    refine ((blank.unquoted.append ?_).append blank'.unquoted).append ?_
    · rcases open_ with rfl | rfl <;> unfold Unquoted <;> decide
    · rcases name with rfl | name
      · exact nofun
      · exact name.unquoted (by unfold Unquoted; decide)

theorem label_takes {name : Text} : (exactly name ++ blanks ++ exactly [':'] ++ blanks).Takes before taken rest k ↔
    Label name taken ∧ k = [] := by
  constructor
  · intro way
    obtain ⟨_, h, toColon, blank', rfl⟩ := then_blanks.1 way
    obtain ⟨_, toGap, rfl⟩ := then_exactly.1 toColon
    obtain ⟨_, g, ⟨rfl, rfl⟩, blank, rfl⟩ := then_blanks.1 toGap
    rw [List.append_assoc _ _ h]
    exact ⟨.mk blank blank', rfl⟩
  · rintro ⟨⟨blank, blank'⟩, rfl⟩
    rw [List.append_cons]
    exact then_blanks.2 ⟨_, _, then_exactly.2 ⟨_, then_blanks.2 ⟨_, _, ⟨rfl, rfl⟩, blank, rfl⟩, rfl⟩, blank', rfl⟩

theorem optional_takes {a : Pattern} : (optional a).Takes before taken rest k ↔
    (taken = [] ∧ k = []) ∨ a.Takes before taken rest k := or_comm

theorem bracket_takes : (optional (exactly ['('])).Takes before taken rest k ↔ (taken = [] ∨ taken = ['(']) ∧ k = [] :=
  optional_takes.trans or_and_right.symm

theorem name_takes {name : Text} :
    (optional (exactly name ++ blanks ++ exactly [':'] ++ blanks)).Takes before taken rest k ↔
      (taken = [] ∨ Label name taken) ∧ k = [] := by
  rw [optional_takes, label_takes, or_and_right]

theorem pattern_takes {step : String} (letter : step.toList.head?.any Text.isWord = true) :
    (patternStep step).Takes before taken rest k ↔ before.any Text.isWord = false ∧
      ∃ front mark value close, Front front ∧ Text.isQuote mark = true ∧ value ≠ [] ∧ Unquoted value ∧
        Text.isQuote close = true ∧ taken = step.toList ++ front ++ mark :: (value ++ [close]) ∧ k = [(1, value)] := by
  constructor
  · intro way
    obtain ⟨_, _, _, _, toTail, tail, rfl, rfl⟩ := then_takes.1 way
    obtain ⟨mark, value, close, opens, ⟨long, plain⟩, closes, rfl, rfl⟩ := quoted_takes.1 tail
    obtain ⟨_, n, _, _, toName, name, rfl, rfl⟩ := then_takes.1 toTail
    obtain ⟨label, rfl⟩ := name_takes.1 name
    obtain ⟨_, h, toOpen, blank', rfl⟩ := then_blanks.1 toName
    obtain ⟨_, o, _, _, toGap, bracket, rfl, rfl⟩ := then_takes.1 toOpen
    obtain ⟨held, rfl⟩ := bracket_takes.1 bracket
    obtain ⟨_, g, toStep, blank, rfl⟩ := then_blanks.1 toGap
    obtain ⟨outside, rfl, rfl⟩ := (edge_then letter).1 toStep
    refine ⟨outside, _, mark, value, close, .mk blank held blank' label, opens, List.ne_nil_of_length_pos long,
      fun c member => by simpa using plain c member, closes, ?_, rfl⟩
    simp only [List.append_assoc]
  · rintro ⟨outside, _, mark, value, close, ⟨blank, held, blank', label⟩, opens, filled, plain, closes, rfl, rfl⟩
    have long : 1 ≤ value.length ∧ ∀ c ∈ value, (!Text.isQuote c) = true :=
      ⟨List.length_pos_iff.2 filled, fun c member => by simpa using plain c member⟩
    refine then_takes.2 ⟨_, _, [], _, then_takes.2 ⟨_, _, [], [], then_blanks.2 ⟨_, _, then_takes.2 ⟨_, _, [], [],
      then_blanks.2 ⟨_, _, (edge_then letter).2 ⟨outside, rfl, rfl⟩, blank, rfl⟩, bracket_takes.2 ⟨held, rfl⟩, rfl, rfl⟩,
      blank', rfl⟩, name_takes.2 ⟨label, rfl⟩, rfl, rfl⟩,
      quoted_takes.2 ⟨mark, value, close, opens, long, closes, rfl, rfl⟩, ?_, rfl⟩
    simp only [List.append_assoc]

theorem environment_eq : environmentTest = edge ++ exactly "environment".toList ++ longest 1 Text.isBlank ++
    exactly "name".toList ++ blanks ++ exactly [':'] ++ blanks ++ quoteMark ++ capture 1 (longest 1 Text.isWord) ++
    quoteMark ++ blanks ++ exactly [','] ++ blanks ++ exactly "value".toList ++ blanks ++ exactly [':'] ++ blanks ++
    quoteMark ++ capture 2 (longest 0 fun c => !Text.isQuote c) ++ quoteMark := rfl

-- What the test of the environment takes: a variable that is named first, and a value.
theorem environment_taken (way : environmentTest.Takes before taken rest k) :
    ∃ g r mark name close between mark' value close', Blank g ∧ Unquoted (g ++ 'n' :: r) ∧ Text.isQuote mark = true ∧
      (∀ c ∈ name, Text.isWord c = true) ∧ Text.isQuote close = true ∧ Unquoted between ∧ Text.isQuote mark' = true ∧
      Unquoted value ∧ Text.isQuote close' = true ∧ taken = "environment".toList ++ (g ++ 'n' :: r) ++
        mark :: (name ++ close :: (between ++ mark' :: (value ++ [close']))) ∧ k = [(2, value), (1, name)] := by
  rw [environment_eq] at way
  obtain ⟨_, mark', value, close', _, toText, opens', ⟨-, plain⟩, closes', rfl, rfl⟩ := then_quoted.1 way
  obtain ⟨_, j, toColon, blankJ, rfl⟩ := then_blanks.1 toText
  obtain ⟨_, toI, rfl⟩ := then_exactly.1 toColon
  obtain ⟨_, i, toValue, blankI, rfl⟩ := then_blanks.1 toI
  obtain ⟨_, toH, rfl⟩ := then_exactly.1 toValue
  obtain ⟨_, h, toComma, blankH, rfl⟩ := then_blanks.1 toH
  obtain ⟨_, toG, rfl⟩ := then_exactly.1 toComma
  obtain ⟨_, g, toText', blankG, rfl⟩ := then_blanks.1 toG
  obtain ⟨_, mark, name, close, _, toF, opens, ⟨-, words⟩, closes, rfl, rfl⟩ := then_quoted.1 toText'
  obtain ⟨_, f, toColon', blankF, rfl⟩ := then_blanks.1 toF
  obtain ⟨_, toE, rfl⟩ := then_exactly.1 toColon'
  obtain ⟨_, e, toName, blankE, rfl⟩ := then_blanks.1 toE
  obtain ⟨_, toD, rfl⟩ := then_exactly.1 toName
  obtain ⟨_, d, toStep, -, blankD, rfl⟩ := then_longest.1 toD
  obtain ⟨-, rfl, rfl⟩ := (edge_then (by decide)).1 toStep
  have name_eq : "name".toList = 'n' :: "ame".toList := by decide
  have label : Unquoted ("name".toList ++ e ++ ':' :: f) := (Label.mk blankE blankF).unquoted (by unfold Unquoted; decide)
  rw [name_eq] at label ⊢
  have between : Unquoted (g ++ ',' :: h ++ ("value".toList ++ i ++ ':' :: j)) :=
    ((Blank.unquoted blankG).append (List.forall_mem_cons.2 ⟨by decide, Blank.unquoted blankH⟩)).append
      ((Label.mk blankI blankJ).unquoted (by unfold Unquoted; decide))
  refine ⟨d, "ame".toList ++ e ++ ':' :: f, mark, name, close, _, mark', value, close', blankD,
    (Blank.unquoted blankD).append label, opens, words, closes, between, opens',
    fun c member => by simpa using plain c member, closes', ?_, rfl⟩
  simp only [List.append_assoc, List.cons_append, List.nil_append]

end Taken
section Own

variable {u pre rest : Text}

-- A pattern is quiet in a text with no place for it to begin.
theorem quiet_nothing (a : Pattern) : Quiet a [] := by
  intro x y whole filled
  exact absurd (List.append_eq_nil_iff.1 whole.symm).2 filled

theorem branch_operands {glob : Text} (spelled : Operands (.branch glob) u) : ∃ front mark tail, Front front ∧
    Literal mark glob ∧ (∀ c ∈ tail, Text.isWord c = false) ∧ u = front ++ quoted mark glob ++ tail := by
  cases spelled with
  | @bare g args blank _ spelled =>
    cases spelled with
    | branch literal =>
      exact ⟨g ++ [] ++ [] ++ [], _, [], .mk blank (.inl rfl) nofun (.inl rfl), literal, nofun, by simp⟩
    | @pattern l _ _ label literal =>
      exact ⟨g ++ [] ++ [] ++ l, _, [], .mk blank (.inl rfl) nofun (.inr label), literal, nofun, by simp⟩
  | @call g h args k blank blank' spelled blank'' =>
    have closing : ∀ c ∈ k ++ [')'], Text.isWord c = false := blank''.wordless_between (by decide) nofun
    cases spelled with
    | branch literal =>
      exact ⟨g ++ ['('] ++ h ++ [], _, k ++ [')'], .mk blank (.inr rfl) blank' (.inl rfl), literal, closing, by simp⟩
    | @pattern l _ _ label literal =>
      exact ⟨g ++ ['('] ++ h ++ l, _, k ++ [')'], .mk blank (.inr rfl) blank' (.inr label), literal, closing, by simp⟩

theorem branch_passes {glob : Text} (spelled : Operands (.branch glob) u) (outside : pre.getLast?.any Text.isWord = false) :
    Passes (patternStep "branch") (fun m => m.captured 1 = glob) pre ("branch".toList ++ u) rest := by
  have opens : Opens (patternStep "branch") "branch".toList := opens_pattern (by decide) (by decide)
  have letter : "branch".toList.head?.any Text.isWord = true := by decide
  obtain ⟨front, mark, tail, held, literal, wordless, rfl⟩ := branch_operands spelled
  have split : "branch".toList ++ (front ++ quoted mark glob ++ tail ++ rest) =
      "branch".toList ++ front ++ mark :: (glob ++ [mark]) ++ (tail ++ rest) := by simp [quoted]
  cases found : (patternStep "branch").matchAt ⟨pre.getLast?, "branch".toList ++ (front ++ quoted mark glob ++ tail ++ rest),
      pre.length⟩ with
  | none =>
    have quiet : Quiet (patternStep "branch") glob := by
      by_cases filled : glob = []
      · rw [filled]
        exact quiet_nothing _
      · obtain ⟨m, done⟩ := match_done ((pattern_takes letter).2 ⟨outside, front, mark, glob, mark, held, literal.quote, filled,
          literal.unquoted, literal.quote, rfl, rfl⟩)
        rw [split, done] at found
        cases found
    exact (opens.passes_words (step_words (.branch glob)) found).append
      (operands_pass (t := .branch glob) opens (by decide) (List.forall_mem_singleton.2 quiet) spelled)
  | some m =>
    obtain ⟨taken, behind, k, place⟩ := match_found found
    obtain ⟨-, front', mark', value, close, held', opens', -, plain, closes, rfl, rfl⟩ := (pattern_takes letter).1 place.way
    have fronts : front ++ mark :: (glob ++ mark :: (tail ++ rest)) = front' ++ mark' :: (value ++ close :: behind) := by
      simpa [quoted] using List.append_cancel_left place.whole
    obtain ⟨rfl, rfl, values⟩ := Text.cut_unique fronts held.unquoted held'.unquoted literal.quote opens'
    obtain ⟨rfl, rfl, rfl⟩ := Text.cut_unique values literal.unquoted plain literal.quote closes
    rw [split] at found place
    have own : Passes (patternStep "branch") (fun m => m.captured 1 = glob) pre
        ("branch".toList ++ front ++ mark :: (glob ++ [mark])) (tail ++ rest) :=
      passes_match (by simp) found place (place.captured 1)
    simpa [quoted] using own.append (opens.passes_gap wordless)

-- The arguments of a test of the environment either name the variable first, without parentheses, or begin as none
-- that the search knows.
theorem setting_operands {name value : Text} (spelled : Operands (.setting name value) u) :
    (∃ front mark between close, Unquoted front ∧ Literal mark name ∧ Unquoted between ∧ Literal close value ∧
      u = front ++ quoted mark name ++ (between ++ quoted close value)) ∨
    ∃ g c r, Blank g ∧ Text.isBlank c = false ∧ c ≠ 'n' ∧ u = g ++ c :: r := by
  cases spelled with
  | @bare g args blank apart spelled =>
    cases spelled with
    | @setting l m i j _ _ mark close label literal blank' blank'' label' literal' =>
      have comma : Unquoted (i ++ ',' :: j) := blank'.unquoted.append (List.forall_mem_cons.2 ⟨by decide, blank''.unquoted⟩)
      refine .inl ⟨g ++ l, mark, i ++ ',' :: j ++ m, close, blank.unquoted.append (label.unquoted ?_), literal,
        comma.append (label'.unquoted ?_), literal', by simp⟩ <;> unfold Unquoted <;> decide
    | turned label literal blank' blank'' label' literal' =>
      cases label with
      | mk => exact .inr ⟨g, 'v', _, blank, by decide, by decide, rfl⟩
  | @call g h args k blank blank' spelled blank'' =>
    refine .inr ⟨g, '(', h ++ args ++ (k ++ [')']), blank, by decide, by decide, ?_⟩
    simp only [List.append_assoc, List.cons_append]

/-- What a match of the test of the environment tells. -/
def Reads (name value : Text) (m : Match) : Prop :=
  m.captured 1 = name ∧ m.captured 2 = value ∧ ∀ c ∈ name, Text.isWord c = true

theorem words_unquoted {s : Text} (words : ∀ c ∈ s, Text.isWord c = true) : Unquoted s := by
  intro c member
  refine Bool.eq_false_iff.2 fun quote => ?_
  have letter := words c member
  rw [Text.quote_no_word quote] at letter
  cases letter

theorem setting_passes {name value : Text} (plain : (Test.setting name value).Plain)
    (spelled : Operands (.setting name value) u) :
    Passes environmentTest (Reads name value) pre ("environment".toList ++ u) rest := by
  have opens := opens_environment
  cases found : environmentTest.matchAt ⟨pre.getLast?, "environment".toList ++ (u ++ rest), pre.length⟩ with
  | none =>
    exact (opens.passes_words (step_words (.setting name value)) found).append
      (operands_pass opens (by decide) (plain _ (by simp [Test.misleading])) spelled)
  | some m =>
    obtain ⟨taken, behind, k, place⟩ := match_found found
    obtain ⟨g', r', mark', name', end', between', open', value', close', blank', front', opens', words, ends, separator',
      opens₂', plain', closes', rfl, rfl⟩ := environment_taken place.way
    have whole := List.append_cancel_left place.whole
    rcases setting_operands spelled with ⟨front, mark, between, close, front_, literal, separator, literal₂, rfl⟩ |
      ⟨g, c, r, blank, solid, other, rfl⟩
    · have texts : front ++ mark :: (name ++ mark :: (between ++ close :: (value ++ close :: rest))) = (g' ++ 'n' :: r') ++
          mark' :: (name' ++ end' :: (between' ++ open' :: (value' ++ close' :: behind))) := by simpa [quoted] using whole
      obtain ⟨rfl, rfl, names⟩ := Text.cut_unique texts front_ front' literal.quote opens'
      obtain ⟨rfl, rfl, separators⟩ := Text.cut_unique names literal.unquoted (words_unquoted words) literal.quote ends
      obtain ⟨rfl, rfl, values⟩ := Text.cut_unique separators separator separator' literal₂.quote opens₂'
      obtain ⟨rfl, rfl, rfl⟩ := Text.cut_unique values literal₂.unquoted plain' literal₂.quote closes'
      have split : "environment".toList ++ (g' ++ 'n' :: r') ++
          mark :: (name ++ mark :: (between ++ close :: (value ++ [close]))) =
            "environment".toList ++ ((g' ++ 'n' :: r') ++ quoted mark name ++ (between ++ quoted close value)) := by
        simp [quoted]
      rw [split] at place
      rw [← List.append_assoc] at found
      exact passes_match (by simp) found (by simpa only [List.append_assoc] using place)
        ⟨place.captured 1, place.captured 2, words⟩
    · -- A parenthesis or another name stands where the search reads the name of the variable.
      have texts : g ++ c :: (r ++ rest) = g' ++ 'n' :: (r' ++
          mark' :: (name' ++ end' :: (between' ++ open' :: (value' ++ close' :: behind)))) := by simpa using whole
      have blanks {gap : Text} (blank : Blank gap) : ∀ d ∈ gap, (!Text.isBlank d) = false :=
        fun d member => by rw [blank d member]; rfl
      refine absurd ?_ other
      exact (Text.cut_unique (p := fun d => !Text.isBlank d) texts (blanks blank) (blanks blank') (by simpa using solid)
        (by decide)).2.1

theorem change_passes (plain : Test.change.Plain) (spelled : Operands .change u) :
    Passes changeTest (fun _ => True) pre ("changeRequest".toList ++ u) rest := by
  have opens := opens_change
  have behind : Passes changeTest (fun _ => True) (pre ++ "changeRequest".toList) u rest :=
    operands_pass opens (by decide) (plain _ (by simp [Test.misleading])) spelled
  refine Passes.append ?_ behind
  cases found : changeTest.matchAt ⟨pre.getLast?, "changeRequest".toList ++ (u ++ rest), pre.length⟩ with
  | none => exact opens.passes_words (step_words .change) found
  | some m =>
    obtain ⟨taken, behind, k, place⟩ := match_found found
    obtain ⟨v, w, _, _, first, ⟨-, rfl, rfl⟩, rfl, rfl⟩ := then_takes.1 place.way
    obtain ⟨-, rfl, rfl⟩ := (edge_then (by decide)).1 first
    rw [List.append_nil] at place
    obtain rfl : u ++ rest = behind := List.append_cancel_left (List.append_cancel_left place.whole)
    exact passes_match (by decide) found place trivial

end Own

section Blocks

def Test.kind : Test → GuardCondition
  | branch _ => .branch
  | setting _ _ => .environment
  | change => .changeRequest

def Test.expression : Test → Text
  | branch glob => glob
  | setting name value => name ++ " == ".toList ++ value
  | change => []

/-- A condition found is a test, and its variable has a name made of word characters. -/
structure Test.Said (t : Test) (c : Condition) : Prop where
  kind : c.kind = t.kind
  expression : c.expression = t.expression
  words : ∀ name value, t = .setting name value → ∀ x ∈ name, Text.isWord x = true

variable {w : Requirement} {s : Text}

-- What a search finds in a block it finds in one of its tests.
theorem block_found {a : Pattern} {word : Text} {R : Test → Match → Prop} (opens : Opens a word)
    (apart : ∀ k : Connective, ¬ word <+: k.word)
    (each : ∀ (t : Test) (u pre rest : Text), t.Plain → Operands t u → pre.getLast?.any Text.isWord = false →
      rest.head?.any Text.isWord = false → Passes a (R t) pre (t.step ++ u) rest)
    (written : w.Written s) (plain : ∀ t ∈ w.tests, t.Plain) : ∀ m ∈ a.allMatches s, ∃ t ∈ w.tests, R t m :=
  all_matches_passed (written_passes opens apart each written plain (fun _ => rfl) rfl) opens.unmatched_end

theorem branch_found (written : w.Written s) (plain : ∀ t ∈ w.tests, t.Plain) :
    ∀ m ∈ (patternStep "branch").allMatches s, ∃ t ∈ w.tests, t = .branch (m.captured 1) := by
  have opens : Opens (patternStep "branch") "branch".toList := opens_pattern (by decide) (by decide)
  refine block_found opens (fun k => by cases k <;> decide) (fun t u pre rest plain spelled outside ends => ?_) written plain
  cases t with
  | branch glob => exact (branch_passes spelled outside).mono fun m same => by rw [same]
  | setting name value =>
    have other : ¬ "branch".toList <+: "environment".toList := by decide
    exact test_passes (t := .setting name value) opens other (by decide) (plain _ (by simp [Test.misleading])) spelled ends
  | change => exact test_passes opens (by decide) (by decide) nofun spelled ends

theorem environment_found (written : w.Written s) (plain : ∀ t ∈ w.tests, t.Plain) :
    ∀ m ∈ environmentTest.allMatches s, ∃ t ∈ w.tests, ∃ name value, t = .setting name value ∧ Reads name value m := by
  have opens := opens_environment
  refine block_found opens (fun k => by cases k <;> decide) (fun t u pre rest plain spelled outside ends => ?_) written plain
  cases t with
  | branch glob =>
    have other : ¬ "environment".toList <+: "branch".toList := by decide
    exact test_passes (t := .branch glob) opens other (by decide) (plain _ (by simp [Test.misleading])) spelled ends
  | setting name value => exact (setting_passes plain spelled).mono fun m told => ⟨name, value, rfl, told⟩
  | change => exact test_passes opens (by decide) (by decide) nofun spelled ends

theorem change_found (written : w.Written s) (plain : ∀ t ∈ w.tests, t.Plain) :
    ∀ m ∈ changeTest.allMatches s, ∃ t ∈ w.tests, t = .change := by
  have opens := opens_change
  refine block_found opens (fun k => by cases k <;> decide) (fun t u pre rest plain spelled outside ends => ?_) written plain
  cases t with
  | branch glob =>
    have other : ¬ "changeRequest".toList <+: "branch".toList := by decide
    exact test_passes (t := .branch glob) opens other (by decide) (plain _ (by simp [Test.misleading])) spelled ends
  | setting name value =>
    have other : ¬ "changeRequest".toList <+: "environment".toList := by decide
    exact test_passes (t := .setting name value) opens other (by decide) (plain _ (by simp [Test.misleading])) spelled ends
  | change => exact (change_passes plain spelled).mono fun m _ => rfl

-- A search for a word that no test begins with finds nothing.
theorem nothing_found {a : Pattern} {word : Text} (opens : Opens a word) (apart : ∀ k : Connective, ¬ word <+: k.word)
    (others : ∀ name ∈ steps ++ labels, ¬ word <+: name) (misleads : ∀ t : Test, a ∈ t.misleading)
    (written : w.Written s) (plain : ∀ t ∈ w.tests, t.Plain) : a.allMatches s = [] := by
  obtain ⟨first, labels⟩ := List.forall_mem_append.1 others
  refine List.eq_nil_iff_forall_not_mem.2 fun m member => ?_
  obtain ⟨t, -, none⟩ := block_found opens apart (R := fun _ _ => False) (fun t u pre rest plain spelled outside ends =>
    test_passes opens (first _ (step_among t)) labels (plain a (misleads t)) spelled ends) written plain m member
  exact none

-- The conditions found in a block are tests of it.
theorem conditions_said (written : w.Written s) (plain : ∀ t ∈ w.tests, t.Plain) :
    ∀ c ∈ conditionsIn s, c.kind = .expression ∨ ∃ t ∈ w.tests, t.Said c := by
  have tagless : (patternStep "tag").allMatches s = [] :=
    nothing_found (opens_pattern (by decide) (by decide)) (fun k => by cases k <;> decide) (by decide)
      (fun t => by cases t <;> simp [Test.misleading]) written plain
  have untagged : tagTest.allMatches s = [] :=
    nothing_found opens_tag (fun k => by cases k <;> decide) (by decide) (fun t => by cases t <;> simp [Test.misleading])
      written plain
  intro c member
  simp only [conditionsIn, tagless, untagged, List.map_nil, List.append_nil, List.mem_append, List.mem_map] at member
  rcases member with ((⟨b, -, rfl⟩ | ⟨m, found, rfl⟩) | ⟨m, found, rfl⟩) | ⟨m, found, rfl⟩
  · exact .inl rfl
  · obtain ⟨t, own, rfl⟩ := branch_found written plain m found
    exact .inr ⟨_, own, rfl, rfl, nofun⟩
  · obtain ⟨t, own, name, value, rfl, rfl, rfl, words⟩ := environment_found written plain m found
    refine .inr ⟨_, own, rfl, rfl, fun name value same => ?_⟩
    obtain ⟨rfl, rfl⟩ := Test.setting.inj same
    exact words
  · obtain ⟨t, own, rfl⟩ := change_found written plain m found
    exact .inr ⟨_, own, rfl, rfl, nofun⟩

end Blocks

end PipelineMigration.Feature
