import PipelineMigration.Proofs.Yaml.Cursor
import PipelineMigration.Yaml.Quote
import PipelineMigration.Yaml.Token.Quoted
import Mathlib.Data.List.TakeWhile
import Mathlib.Tactic.ByContra
set_option autoImplicit false

/- Scalars in quotes are read back. In double quotes every text is; in single quotes a text is unless
   one of its line breaks is followed by a mark between documents. -/
namespace PipelineMigration.Yaml

-- Of the gaps only the space stands for itself in double quotes.
theorem quote_char_gap (x : Char) (gap : isGap x = true) (space : x ≠ ' ') : quoteChar x ≠ [x] := by
  simp only [isGap, isTabOrSpace, isBreak, Bool.or_eq_true, beq_iff_eq] at gap
  rcases gap with (rfl | rfl) | ((((rfl | rfl) | rfl) | rfl) | rfl)
  · exact absurd rfl space
  all_goals decide

theorem quote_char_mark (x : Char) (mark : x = '"' ∨ x = '\\') : quoteChar x ≠ [x] := by
  rcases mark with rfl | rfl <;> decide

/-- The codes that are written in hexadecimal. -/
def isCoded (n : Nat) : Bool := n < 160 || n == 0x2028 || n == 0x2029 || n == 0xfffe || n == 0xffff

theorem low_codes_read : ∀ n < 160, (Text.hexDigits 4 n).length = 4 ∧
    hexNumber? (Text.hexDigits 4 n) = some n := by decide +kernel

theorem coded_read (n : Nat) (coded : isCoded n = true) :
    (Text.hexDigits 4 n).length = 4 ∧ hexNumber? (Text.hexDigits 4 n) = some n ∧ n ≤ 0xffff ∧
      ¬ (0xd800 ≤ n ∧ n < 0xe000) := by
  simp only [isCoded, Bool.or_eq_true, decide_eq_true_eq, beq_iff_eq] at coded
  rcases coded with (((low | rfl) | rfl) | rfl) | rfl
  · exact ⟨(low_codes_read n low).1, (low_codes_read n low).2, by omega, by omega⟩
  all_goals decide

theorem of_code_coded (x : Char) (coded : isCoded x.toNat = true) : ofCode x.toNat = .ok x := by
  obtain ⟨-, -, bound, whole⟩ := coded_read _ coded
  unfold ofCode
  rw [if_neg (by omega), if_neg (by omega), if_neg (by simpa using whole)]
  exact congrArg Except.ok (Char.ofNat_toNat x)

/-- How a character stands in double quotes: as an escape of one character, as an escape by code or bare. -/
inductive QuotedForm (x : Char) : Prop where
  | short (e : Char) (text : quoteChar x = ['\\', e]) (listed : Keyed.get? e shortEscapes = some x)
      (clean : isBreak e = false ∧ isAllowed e = true)
  | coded (text : quoteChar x = "\\u".toList ++ Text.hexDigits 4 x.toNat) (known : isCoded x.toNat = true)
  | bare (text : quoteChar x = [x]) (clean : isBreak x = false ∧ isAllowed x = true)

theorem quote_char_form (x : Char) : QuotedForm x := by
  by_cases double : x = '"'
  · exact double ▸ .short '"' rfl rfl (by decide)
  by_cases slash : x = '\\'
  · exact slash ▸ .short '\\' rfl rfl (by decide)
  by_cases feed : x = '\n'
  · exact feed ▸ .short 'n' rfl rfl (by decide)
  by_cases carriage : x = '\r'
  · exact carriage ▸ .short 'r' rfl rfl (by decide)
  by_cases tab : x = '\t'
  · exact tab ▸ .short 't' rfl rfl (by decide)
  by_cases back : x = '\x08'
  · exact back ▸ .short 'b' rfl rfl (by decide)
  by_cases form : x = '\x0c'
  · exact form ▸ .short 'f' rfl rfl (by decide)
  have plain : quoteChar x = if (x.toNat < 32 || isUnreadable x) = true then
      "\\u".toList ++ Text.hexDigits 4 x.toNat else [x] := by
    simp only [quoteChar, beq_iff_eq, double, slash, feed, carriage, tab, back, form, if_false]
  by_cases low : (x.toNat < 32 || isUnreadable x) = true
  · rw [if_pos low] at plain
    refine .coded plain ?_
    simp only [isUnreadable, Bool.or_eq_true, Bool.and_eq_true, decide_eq_true_eq, beq_iff_eq] at low
    simp only [isCoded, Bool.or_eq_true, decide_eq_true_eq, beq_iff_eq]
    omega
  · rw [if_neg low] at plain
    simp only [isUnreadable, Bool.or_eq_true, Bool.and_eq_true, decide_eq_true_eq, beq_iff_eq, not_or,
      not_and] at low
    have size : x.toNat.isValidChar := x.valid
    refine .bare plain ⟨?_, ?_⟩
    · simp only [isBreak, Bool.or_eq_false_iff, beq_eq_false_iff_ne]
      refine ⟨⟨⟨⟨feed, carriage⟩, ?_⟩, ?_⟩, ?_⟩ <;>
        · rintro rfl
          revert low
          decide
    · simp only [isAllowed, Bool.or_eq_true, Bool.and_eq_true, decide_eq_true_eq, beq_iff_eq]
      simp only [Nat.isValidChar] at size
      omega

section Escape

variable {c : Cursor} {after : Text}

theorem escape_short (e x : Char) (rest : c.rest = e :: after)
    (short : Keyed.get? e shortEscapes = some x) : escape c = .ok ([x], c.step) := by
  unfold escape
  rw [rest]
  dsimp only
  rw [short]

theorem escape_coded (x : Char) (coded : isCoded x.toNat = true)
    (rest : c.rest = 'u' :: Text.hexDigits 4 x.toNat ++ after) : escape c = .ok ([x], c.advance 5) := by
  obtain ⟨width, number, -⟩ := coded_read _ coded
  have digits : (Text.hexDigits 4 x.toNat ++ after).take 4 = Text.hexDigits 4 x.toNat := by
    exact List.take_left' width
  have long : ¬ (Text.hexDigits 4 x.toNat ++ after).length < 4 := by
    rw [List.length_append, width]
    omega
  have unlisted : Keyed.get? 'u' shortEscapes = none := by decide
  have four : codeWidth? 'u' = some 4 := by decide
  unfold escape
  rw [rest]
  dsimp only [List.cons_append]
  rw [unlisted, four]
  dsimp only
  rw [if_neg long, digits, number]
  dsimp only
  rw [of_code_coded x coded]
  rfl

-- What stands for a character in place of it is an escape, and the escape stands for it.
theorem escape_quoted (x : Char) (escaped : quoteChar x ≠ [x]) (rest : c.rest = quoteChar x ++ after) :
    (∃ r, c.rest = '\\' :: r) ∧ escape c.step = .ok ([x], c.advance (quoteChar x).length) := by
  cases quote_char_form x with
  | short e text listed _ =>
    rw [text] at rest ⊢
    have next : c.step.rest = e :: after := by
      rw [Cursor.step_rest, rest]
      rfl
    exact ⟨⟨e :: after, rest⟩, escape_short e x next listed⟩
  | coded text known =>
    rw [text] at rest ⊢
    have next : c.step.rest = 'u' :: Text.hexDigits 4 x.toNat ++ after := by
      rw [Cursor.step_rest, rest]
      rfl
    refine ⟨⟨_, rest⟩, ?_⟩
    rw [escape_coded x known next, List.length_append, (coded_read _ known).1]
    rfl
  | bare text _ => exact absurd text escaped

end Escape

def hasCleanCode (n : Nat) : Bool := (Text.hexDigits 4 n).all fun y => !isBreak y && isAllowed y

theorem low_codes_clean : ((List.range 160).all hasCleanCode) = true := by decide +kernel

theorem coded_clean (n : Nat) (coded : isCoded n = true) :
    ∀ y ∈ Text.hexDigits 4 n, isBreak y = false ∧ isAllowed y = true := by
  have clean : hasCleanCode n = true := by
    simp only [isCoded, Bool.or_eq_true, decide_eq_true_eq, beq_iff_eq] at coded
    rcases coded with (((low | rfl) | rfl) | rfl) | rfl
    · exact List.all_eq_true.1 low_codes_clean n (List.mem_range.2 low)
    all_goals decide
  intro y member
  simpa using List.all_eq_true.1 clean y member

-- What stands for a character in double quotes stays on its line and may stand in a document.
theorem quote_char_clean (x : Char) : ∀ y ∈ quoteChar x, isBreak y = false ∧ isAllowed y = true := by
  have slash : isBreak '\\' = false ∧ isAllowed '\\' = true := by decide
  cases quote_char_form x with
  | short e text _ clean =>
    rw [text]
    exact List.forall_mem_cons.2 ⟨slash, List.forall_mem_singleton.2 clean⟩
  | coded text known =>
    rw [text]
    exact List.forall_mem_cons.2 ⟨slash, List.forall_mem_cons.2 ⟨by decide, coded_clean _ known⟩⟩
  | bare text clean =>
    rw [text]
    exact List.forall_mem_singleton.2 clean

theorem quote_clean (s : Text) : ∀ y ∈ quote s, isBreak y = false ∧ isAllowed y = true := by
  intro y member
  rcases List.mem_append.1 member with front | last
  · rcases List.mem_cons.1 front with rfl | inside
    · decide
    · obtain ⟨x, -, among⟩ := List.mem_flatMap.1 inside
      exact quote_char_clean x y among
  · rw [List.mem_singleton.1 last]
    decide

-- Blanks that no line break follows stand for themselves.
theorem quoted_blanks_run {c : Cursor} {run after : Text} (rest : c.rest = run ++ after)
    (blanks : ∀ x ∈ run, isTabOrSpace x = true) (goes : after ≠ [])
    (ends : after.head?.all fun x => !isGap x) : quotedBlanks c = .ok (run, c.advance run.length) := by
  have stop : after.head?.all fun x => !isTabOrSpace x := by
    cases after with
    | nil => rfl
    | cons x r => simp_all [isGap]
  have left := Cursor.advance_run_rest rest
  have unbroken : (c.advance run.length).lineBreak? = none := by
    refine Cursor.line_break_none ?_
    rw [left]
    cases after with
    | nil => rfl
    | cons x r => simp_all [isGap]
  unfold quotedBlanks
  rw [Cursor.span_run isTabOrSpace rest blanks stop]
  dsimp only
  rw [left, if_neg (by simpa using goes), unbroken]

theorem spaces_blank (n : Nat) : ∀ x ∈ List.replicate n ' ', isTabOrSpace x = true := by
  intro x member
  rw [List.eq_of_mem_replicate member]
  rfl

-- The spaces at the front of a text and what follows them.
theorem spaces_first (s : Text) : ∃ n r, s = List.replicate n ' ' ++ r ∧ r.head? ≠ some ' ' := by
  induction s with
  | nil => exact ⟨0, [], rfl, by simp⟩
  | cons x r ih =>
    by_cases space : x = ' '
    · obtain ⟨n, t, same, ends⟩ := ih
      exact ⟨n + 1, t, by rw [space, same]; rfl, ends⟩
    · exact ⟨0, x :: r, rfl, by simpa using space⟩

theorem flat_map_spaces (n : Nat) (s : Text) :
    (List.replicate n ' ' ++ s).flatMap quoteChar = List.replicate n ' ' ++ s.flatMap quoteChar := by
  induction n with
  | zero => rfl
  | succ n ih => exact congrArg (' ' :: ·) ih

-- What follows spaces in double quotes is no gap.
theorem quoted_ends_spaces (s after : Text) (ends : s.head? ≠ some ' ') :
    (s.flatMap quoteChar ++ '"' :: after).head?.all fun x => !isGap x := by
  cases s with
  | nil => rfl
  | cons x r =>
    rw [List.flatMap_cons, List.append_assoc]
    by_cases escaped : quoteChar x = [x]
    · rw [escaped]
      by_cases gap : isGap x = true
      · exact absurd escaped (quote_char_gap x gap fun space => ends (congrArg some space))
      · simpa using gap
    · have probe := (escape_quoted (c := { rest := quoteChar x ++ [] }) x escaped rfl).1
      obtain ⟨t, same⟩ := probe
      have begins : quoteChar x = '\\' :: t := by simpa using same
      rw [begins]
      rfl

theorem length_le_flat_map (f : Char → Text) (some : ∀ x, f x ≠ []) (s : Text) :
    s.length ≤ (s.flatMap f).length := by
  induction s with
  | nil => exact Nat.le_refl _
  | cons x r ih =>
    have positive := List.length_pos_iff.2 (some x)
    rw [List.flatMap_cons, List.length_append, List.length_cons]
    omega

theorem quote_char_ne_nil (x : Char) : quoteChar x ≠ [] := by
  cases quote_char_form x with
  | short e text _ _ =>
    rw [text]
    exact List.cons_ne_nil _ _
  | coded text _ =>
    rw [text]
    exact List.cons_ne_nil _ _
  | bare text _ =>
    rw [text]
    exact List.cons_ne_nil _ _

/-- How a part in double quotes is read that begins with a character. -/
def doublePart (x : Char) (c : Cursor) : Except Fault (Text × Cursor) :=
  if x == '\\' then escape c.step else if isGap x then quotedBlanks c else .ok ([x], c.step)

-- A part in double quotes is read first, then the text after it.
theorem double_quoted_part {budget n m : Nat} {c : Cursor} {x : Char} {r part t : Text} (first : c.rest = x :: r)
    (unquoted : x ≠ '"') (read : doublePart x c = .ok (part, c.advance n))
    (more : doubleQuoted budget (c.advance n) = .ok (t, (c.advance n).advance m)) :
    doubleQuoted (budget + 1) c = .ok (part ++ t, c.advance (n + m)) := by
  have round : doubleQuoted (budget + 1) c = (doublePart x c).bind fun part =>
      (doubleQuoted budget part.2).bind fun more => .ok (part.1 ++ more.1, more.2) := by
    rw [doubleQuoted, first]
    dsimp only
    rw [if_neg (by simpa using unquoted)]
    unfold doublePart
    split
    · rfl
    · split <;> rfl
  rw [round, read, Except.bind]
  dsimp only
  rw [more, Except.bind, Cursor.advance_add]

-- A character in double quotes, other than a space, is a part of its own.
theorem quoted_char_part {c : Cursor} {x : Char} {after : Text} (rest : c.rest = quoteChar x ++ after)
    (space : x ≠ ' ') : ∃ y r, c.rest = y :: r ∧ y ≠ '"' ∧
      doublePart y c = .ok ([x], c.advance (quoteChar x).length) := by
  by_cases escaped : quoteChar x = [x]
  · rw [escaped] at rest ⊢
    have bare : ¬ isGap x = true := fun gap => quote_char_gap x gap space escaped
    have unescaped : ¬ (x == '\\') = true := fun mark => quote_char_mark x (.inr (by simpa using mark)) escaped
    refine ⟨x, after, rest, fun mark => quote_char_mark x (.inl mark) escaped, ?_⟩
    rw [doublePart, if_neg unescaped, if_neg bare]
    rfl
  · obtain ⟨⟨r, first⟩, read⟩ := escape_quoted x escaped rest
    exact ⟨'\\', r, first, by decide, read⟩

-- Every text in double quotes is read back whole.
theorem double_quoted_reads (budget : Nat) (s after : Text) (c : Cursor)
    (rest : c.rest = s.flatMap quoteChar ++ '"' :: after) (enough : s.length < budget) :
    doubleQuoted budget c = .ok (s, c.advance ((s.flatMap quoteChar).length + 1)) := by
  induction budget generalizing s c with
  | zero => exact absurd enough (Nat.not_lt_zero _)
  | succ budget ih =>
    -- Spaces are read together: only at their end is it known that no line break follows.
    obtain ⟨n, r, rfl, ends⟩ := spaces_first s
    rw [flat_map_spaces, List.append_assoc] at rest
    cases n with
    | succ n =>
      have first : c.rest = ' ' :: (List.replicate n ' ' ++ (r.flatMap quoteChar ++ '"' :: after)) := rest
      have blanks := quoted_blanks_run rest (spaces_blank _) (by simp) (quoted_ends_spaces r after ends)
      have left := Cursor.advance_run_rest rest
      rw [List.length_replicate] at blanks left
      have shorter : r.length < budget := by simp at enough; omega
      rw [flat_map_spaces, List.length_append, List.length_replicate, Nat.add_assoc]
      exact double_quoted_part first (by decide) blanks (ih r _ left shorter)
    | zero =>
      simp only [List.replicate_zero, List.nil_append] at rest enough ⊢
      cases r with
      | nil =>
        have first : c.rest = '"' :: after := rest
        unfold doubleQuoted
        rw [first]
        rfl
      | cons x r =>
        rw [List.flatMap_cons, List.append_assoc] at rest
        have left := Cursor.advance_run_rest rest
        have shorter : r.length < budget := by simp at enough; omega
        have space : x ≠ ' ' := fun same => ends (congrArg some same)
        obtain ⟨y, t, first, unquoted, read⟩ := quoted_char_part rest space
        rw [List.flatMap_cons, List.length_append, Nat.add_assoc]
        exact double_quoted_part first unquoted read (ih r _ left shorter)

/-- Whether a line break of a text is followed by a mark between documents, a single quote standing
    after the text. -/
def meetsMark : Text → Bool
  | [] => false
  | b :: r => (isBreak b && beginsMark (r ++ ['\''])) || meetsMark r

theorem begins_mark_gap (x : Char) (r : Text) (gap : isGap x = true) : beginsMark (x :: r) = false := by
  unfold beginsMark
  have dash : ('-' == x) = false := by
    rw [beq_eq_false_iff_ne]
    rintro rfl
    exact absurd gap (by decide)
  have dot : ('.' == x) = false := by
    rw [beq_eq_false_iff_ne]
    rintro rfl
    exact absurd gap (by decide)
  simp [Text.startsWith, List.isPrefixOf, dash, dot]

-- How a character stands in single quotes.
def doubled (c : Char) : Text := if c == '\'' then ['\'', '\''] else [c]

theorem single_quote_eq (s : Text) : singleQuote s = '\'' :: s.flatMap doubled ++ ['\''] := rfl

theorem doubled_of_ne (x : Char) (other : x ≠ '\'') : doubled x = [x] := by
  simp [doubled, other]

theorem doubled_ne_nil (x : Char) : doubled x ≠ [] := by
  unfold doubled
  split <;> simp

theorem begins_mark_quote (r : Text) : beginsMark ('\'' :: r) = false := by
  simp [beginsMark, Text.startsWith, List.isPrefixOf]

-- A mark shows through single quotes: it is there before doubling when it is there after.
theorem begins_mark_doubled (s after : Text) :
    beginsMark (s.flatMap doubled ++ '\'' :: after) = beginsMark (s ++ ['\'']) := by
  have head (r : Text) : (r.flatMap doubled ++ '\'' :: after).head? = (r ++ ['\'']).head? := by
    cases r with
    | nil => rfl
    | cons x r =>
      rw [List.flatMap_cons]
      by_cases quote : x = '\''
      · rw [quote]
        rfl
      · rw [doubled_of_ne x quote]
        rfl
  match s with
  | [] => exact (begins_mark_quote after).trans (begins_mark_quote []).symm
  | [a] =>
    by_cases qa : a = '\''
    · rw [qa]
      exact (begins_mark_quote _).trans (begins_mark_quote _).symm
    · simp [beginsMark, Text.startsWith, List.isPrefixOf, doubled_of_ne, qa]
  | [a, b] =>
    by_cases qa : a = '\''
    · rw [qa]
      exact (begins_mark_quote _).trans (begins_mark_quote _).symm
    · by_cases qb : b = '\''
      · simp [beginsMark, Text.startsWith, List.isPrefixOf, doubled, qa, qb]
      · simp [beginsMark, Text.startsWith, List.isPrefixOf, doubled_of_ne, qa, qb]
  | a :: b :: d :: r =>
    by_cases qa : a = '\''
    · rw [qa]
      exact (begins_mark_quote _).trans (begins_mark_quote _).symm
    · by_cases qb : b = '\''
      · simp [beginsMark, Text.startsWith, List.isPrefixOf, doubled, qa, qb]
      · by_cases qd : d = '\''
        · simp [beginsMark, Text.startsWith, List.isPrefixOf, doubled, qa, qb, qd]
        · simp [beginsMark, Text.startsWith, List.isPrefixOf, doubled_of_ne, qa, qb, qd, endsWord, head]

-- Whether a run of gaps reaches the start of a line.
def reachesLine (gaps : Text) : Bool := gaps.getLast?.all isBreak

theorem reaches_line_append (front gaps : Text) (left : gaps ≠ []) :
    reachesLine (front ++ gaps) = reachesLine gaps := by
  unfold reachesLine
  obtain ⟨y, last⟩ := Option.isSome_iff_exists.1 (List.getLast?_isSome.2 left)
  rw [List.getLast?_append, last, Option.some_or]

-- A run of gaps is blanks followed by nothing or by a line break.
theorem blanks_first (gaps : Text) (all : ∀ x ∈ gaps, isGap x = true) :
    ∃ blanks more, gaps = blanks ++ more ∧ (∀ x ∈ blanks, isTabOrSpace x = true) ∧
      more.head?.all isBreak = true := by
  induction gaps with
  | nil => exact ⟨[], [], rfl, by simp, rfl⟩
  | cons x r ih =>
    by_cases blank : isTabOrSpace x = true
    · obtain ⟨blanks, more, rfl, blanksAll, ends⟩ := ih fun y later => all y (List.mem_cons_of_mem _ later)
      exact ⟨x :: blanks, more, rfl, List.forall_mem_cons.2 ⟨blank, blanksAll⟩, ends⟩
    · have here := all x List.mem_cons_self
      refine ⟨[], x :: r, rfl, by simp, ?_⟩
      simpa [isGap, blank] using here

theorem break_not_blank (x : Char) (breaks : isBreak x = true) : isTabOrSpace x = false := by
  simp only [isBreak, Bool.or_eq_true, beq_iff_eq] at breaks
  rcases breaks with (((rfl | rfl) | rfl) | rfl) | rfl <;> rfl

-- A run of gaps that begins with a line break is that break and the rest of the run, whatever
-- stands after the run.
theorem break_in_gaps (y : Char) (r : Text) (breaks : isBreak y = true) : ∃ b front later,
    y :: r = front ++ later ∧ front ≠ [] ∧ reachesLine front = true ∧ ∀ (c : Cursor) (x : Char) (after : Text),
      isGap x = false → c.rest = y :: r ++ x :: after → c.lineBreak? = some (b, c.advance front.length) := by
  by_cases pair : y = '\r' ∧ ∃ t, r = '\n' :: t
  · obtain ⟨rfl, t, rfl⟩ := pair
    refine ⟨'\n', ['\r', '\n'], t, rfl, by simp, rfl, fun c x after _ rest => ?_⟩
    unfold Cursor.lineBreak?
    rw [rest]
    rfl
  · refine ⟨if y == '\u2028' || y == '\u2029' then y else '\n', [y], r, rfl, by simp, breaks,
      fun c x after bare rest => ?_⟩
    unfold Cursor.lineBreak?
    split
    · rename_i t same
      rw [rest] at same
      obtain ⟨rfl, tail⟩ := List.cons.inj same
      cases r with
      | nil =>
        obtain ⟨rfl, -⟩ := List.cons.inj tail
        exact absurd bare (by decide)
      | cons z u =>
        obtain ⟨rfl, -⟩ := List.cons.inj tail
        exact absurd ⟨rfl, u, rfl⟩ pair
    · rename_i z t _ same
      rw [rest] at same
      obtain ⟨rfl, -⟩ := List.cons.inj same
      by_cases separator : (y == '\u2028' || y == '\u2029') = true
      · rw [if_pos separator, if_pos separator]
        rfl
      · rw [if_neg separator, if_neg separator, if_pos breaks]
        rfl
    · rename_i none
      rw [rest] at none
      cases none

theorem skip_blanks {c : Cursor} {blanks more after : Text} {x : Char} (bare : isGap x = false)
    (rest : c.rest = blanks ++ (more ++ x :: after)) (all : ∀ y ∈ blanks, isTabOrSpace y = true)
    (ends : more.head?.all isBreak = true) :
    c.span isTabOrSpace = (blanks, c.advance blanks.length) := by
  refine Cursor.span_run isTabOrSpace rest all ?_
  cases more with
  | nil => simp_all [isGap]
  | cons b r =>
    have breaks : isBreak b = true := by simpa using ends
    simp [break_not_blank b breaks]

/-- What a run of gaps is behind the blanks it begins with, whatever bare character stands after the run:
    nothing, or a line break and later gaps that reach the start of a line when the run does. -/
inductive BehindBlanks (gaps blanks : Text) : Prop where
  | nothing (whole : gaps = blanks) (inLine : gaps ≠ [] → reachesLine gaps = false)
      (spanned : ∀ (c : Cursor) (x : Char) (after : Text), isGap x = false → c.rest = gaps ++ x :: after →
        c.span isTabOrSpace = (blanks, c.advance blanks.length) ∧
          (c.advance blanks.length).lineBreak? = none)
  | broken (b : Char) (n : Nat) (later : Text) (laterAll : ∀ y ∈ later, isGap y = true)
      (shorter : later.length < gaps.length) (whole : gaps.length = n + later.length)
      (reaches : reachesLine gaps = reachesLine later)
      (spanned : ∀ (c : Cursor) (x : Char) (after : Text), isGap x = false → c.rest = gaps ++ x :: after →
        c.span isTabOrSpace = (blanks, c.advance blanks.length) ∧
          (c.advance blanks.length).lineBreak? = some (b, c.advance n) ∧
            (c.advance n).rest = later ++ x :: after)

theorem blanks_in_line (blanks : Text) (all : ∀ y ∈ blanks, isTabOrSpace y = true) (some : blanks ≠ []) :
    reachesLine blanks = false := by
  obtain ⟨y, last⟩ := Option.isSome_iff_exists.1 (List.getLast?_isSome.2 some)
  unfold reachesLine
  rw [last]
  refine Bool.eq_false_iff.2 fun breaks => ?_
  have blank := all y (List.mem_of_getLast? last)
  rw [break_not_blank y breaks] at blank
  cases blank

-- Behind its blanks and its first line break a run reaches the start of a line when what is left does,
-- and also when nothing is left.
theorem reaches_line_later (blanks front later : Text) (nonempty : front ≠ [])
    (lineEnd : reachesLine front = true) :
    reachesLine (blanks ++ (front ++ later)) = reachesLine later := by
  by_cases none : later = []
  · subst none
    rw [List.append_nil, reaches_line_append blanks front nonempty, lineEnd]
    rfl
  · rw [← List.append_assoc, reaches_line_append _ later none]

theorem behind_blanks (gaps : Text) (all : ∀ y ∈ gaps, isGap y = true) :
    ∃ blanks, BehindBlanks gaps blanks := by
  obtain ⟨blanks, more, rfl, blanksAll, ends⟩ := blanks_first gaps all
  refine ⟨blanks, ?_⟩
  cases more with
  | nil =>
    rw [List.append_nil]
    refine .nothing rfl (blanks_in_line blanks blanksAll) fun c x after bare rest => ?_
    have spanned : c.rest = blanks ++ ([] ++ x :: after) := rest
    refine ⟨skip_blanks bare spanned blanksAll rfl, Cursor.line_break_none ?_⟩
    rw [Cursor.advance_run_rest rest]
    simp_all [isGap]
  | cons y r =>
    obtain ⟨b, front, later, same, nonempty, lineEnd, found⟩ := break_in_gaps y r (by simpa using ends)
    have positive := List.length_pos_iff.2 nonempty
    have laterAll : ∀ z ∈ later, isGap z = true := fun z member =>
      all z (List.mem_append_right _ (same ▸ List.mem_append_right _ member))
    have whole : (blanks ++ y :: r).length = blanks.length + front.length + later.length := by
      rw [same, List.length_append, List.length_append, Nat.add_assoc]
    refine .broken b (blanks.length + front.length) later laterAll (by omega) whole ?_ fun c x after bare rest => ?_
    · rw [same]
      exact reaches_line_later blanks front later nonempty lineEnd
    · rw [List.append_assoc] at rest
      have left := Cursor.advance_run_rest rest
      refine ⟨skip_blanks bare rest blanksAll ends, ?_, ?_⟩
      · rw [Cursor.advance_add]
        exact found _ x after bare left
      · rw [Cursor.advance_add]
        exact Cursor.advance_run_rest (left.trans (by rw [same, List.append_assoc]))

theorem no_gap_at_mark {gaps after : Text} {c : Cursor} (all : ∀ y ∈ gaps, isGap y = true)
    (rest : c.rest = gaps ++ after) (mark : beginsMark c.rest = true) : gaps = [] := by
  cases gaps with
  | nil => rfl
  | cons y r =>
    rw [rest, List.cons_append, begins_mark_gap y _ (all y List.mem_cons_self)] at mark
    cases mark

-- Blank lines in quotes are passed, unless a mark between documents stands at the start of the line
-- after them.
theorem quoted_breaks_run (gaps : Text) (all : ∀ y ∈ gaps, isGap y = true) :
    ∃ breaks, ∀ (fuel : Nat) (c : Cursor) (x : Char) (after : Text), isGap x = false →
      c.rest = gaps ++ x :: after → gaps.length < fuel →
        quotedBreaks fuel c = if reachesLine gaps && beginsMark (x :: after) then .error .malformed
          else .ok (breaks, c.advance gaps.length) := by
  induction size : gaps.length using Nat.strong_induction_on generalizing gaps with
  | _ size ih =>
    obtain ⟨blanks, behind⟩ := behind_blanks gaps all
    cases behind with
    | nothing whole inLine spanned =>
      refine ⟨[], fun fuel c x after bare rest enough => ?_⟩
      obtain ⟨fuel, rfl⟩ := Nat.exists_eq_succ_of_ne_zero (Nat.ne_of_gt (Nat.zero_lt_of_lt enough))
      obtain ⟨span, unbroken⟩ := spanned c x after bare rest
      unfold quotedBreaks
      by_cases mark : beginsMark c.rest = true
      · have none := no_gap_at_mark all rest mark
        rw [if_pos mark]
        rw [rest, none, List.nil_append] at mark
        simp [none, reachesLine, mark]
      · rw [if_neg mark]
        unfold Cursor.skip
        rw [span]
        dsimp only
        rw [unbroken]
        have safe : (reachesLine gaps && beginsMark (x :: after)) = false := by
          by_cases none : gaps = []
          · rw [rest, none, List.nil_append] at mark
            simp [mark]
          · rw [inLine none, Bool.false_and]
        rw [safe, ← size, whole]
        rfl
    | broken b n later laterAll shorter whole reaches spanned =>
      obtain ⟨breaks, read⟩ := ih later.length (by omega) later laterAll rfl
      refine ⟨b :: breaks, fun fuel c x after bare rest enough => ?_⟩
      obtain ⟨fuel, rfl⟩ := Nat.exists_eq_succ_of_ne_zero (Nat.ne_of_gt (Nat.zero_lt_of_lt enough))
      obtain ⟨span, broken, left⟩ := spanned c x after bare rest
      have unmarked : ¬ beginsMark c.rest = true := fun mark => by
        rw [no_gap_at_mark all rest mark] at shorter
        exact absurd shorter (Nat.not_lt_zero _)
      unfold quotedBreaks
      rw [if_neg unmarked]
      unfold Cursor.skip
      rw [span]
      dsimp only
      rw [broken]
      dsimp only
      rw [read fuel _ x after bare left (by omega), reaches, ← size, whole, Cursor.advance_add]
      split <;> rfl

theorem quoted_blanks_gaps (gaps : Text) (all : ∀ y ∈ gaps, isGap y = true) (some : gaps ≠ []) :
    ∃ folded, ∀ (c : Cursor) (x : Char) (after : Text), isGap x = false → c.rest = gaps ++ x :: after →
      quotedBlanks c = if reachesLine gaps && beginsMark (x :: after) then .error .malformed
        else .ok (folded, c.advance gaps.length) := by
  obtain ⟨blanks, behind⟩ := behind_blanks gaps all
  cases behind with
  | nothing whole inLine spanned =>
    subst whole
    refine ⟨gaps, fun c x after bare rest => ?_⟩
    obtain ⟨span, unbroken⟩ := spanned c x after bare rest
    unfold quotedBlanks
    rw [span]
    dsimp only
    rw [Cursor.advance_run_rest rest, if_neg (by simp), unbroken, inLine some]
    rfl
  | broken b n later laterAll shorter whole reaches spanned =>
    obtain ⟨breaks, read⟩ := quoted_breaks_run later laterAll
    refine ⟨foldBreak b breaks, fun c x after bare rest => ?_⟩
    obtain ⟨span, broken, left⟩ := spanned c x after bare rest
    have goes : (c.advance blanks.length).rest.isEmpty = false := by
      rw [List.isEmpty_eq_false_iff]
      intro none
      simp [Cursor.lineBreak?, none] at broken
    unfold quotedBlanks
    rw [span]
    dsimp only
    rw [goes, if_neg (by simp), broken]
    dsimp only
    rw [read _ _ x after bare left (by rw [left, List.length_append]; omega), reaches, whole, Cursor.advance_add]
    split <;> rfl

theorem meets_mark_gaps (gaps r : Text) (all : ∀ y ∈ gaps, isGap y = true) (some : gaps ≠ []) :
    meetsMark (gaps ++ r) = ((reachesLine gaps && beginsMark (r ++ ['\''])) || meetsMark r) := by
  induction gaps with
  | nil => exact absurd rfl some
  | cons b t ih =>
    rw [List.cons_append, meetsMark.eq_2]
    cases t with
    | nil => rfl
    | cons d u =>
      have gap := all d (List.mem_cons_of_mem _ List.mem_cons_self)
      rw [List.cons_append, List.cons_append, begins_mark_gap d _ gap, Bool.and_false, Bool.false_or,
        ← List.cons_append, ih (fun y later => all y (List.mem_cons_of_mem _ later)) (by simp)]
      rw [show b :: d :: u = [b] ++ (d :: u) from rfl, reaches_line_append [b] (d :: u) (by simp)]

-- The gaps at the front of a text and what follows them.
theorem gaps_first (s : Text) : ∃ gaps r, s = gaps ++ r ∧ (∀ x ∈ gaps, isGap x = true) ∧
    r.head?.all fun x => !isGap x := by
  refine ⟨s.takeWhile isGap, s.dropWhile isGap, List.takeWhile_append_dropWhile.symm, fun x member =>
    List.mem_takeWhile_imp member, ?_⟩
  cases left : s.dropWhile isGap with
  | nil => rfl
  | cons x r =>
    have stop := List.head?_dropWhile_not isGap s
    rw [left] at stop
    simpa using stop

theorem flat_map_gaps (gaps r : Text) (all : ∀ x ∈ gaps, isGap x = true) :
    (gaps ++ r).flatMap doubled = gaps ++ r.flatMap doubled := by
  induction gaps with
  | nil => rfl
  | cons x t ih =>
    have other : x ≠ '\'' := by
      rintro rfl
      exact absurd (all '\'' List.mem_cons_self) (by decide)
    rw [List.cons_append, List.flatMap_cons, doubled_of_ne x other,
      ih fun y later => all y (List.mem_cons_of_mem _ later)]
    rfl

-- What a text in single quotes goes on with is no gap.
theorem doubled_bare (r after : Text) (bare : r.head?.all fun x => !isGap x) :
    ∃ x t, r.flatMap doubled ++ '\'' :: after = x :: t ∧ isGap x = false := by
  cases r with
  | nil => exact ⟨'\'', after, rfl, rfl⟩
  | cons y u =>
    have gapless : isGap y = false := by simpa using bare
    by_cases quote : y = '\''
    · subst quote
      exact ⟨'\'', '\'' :: (u.flatMap doubled ++ '\'' :: after), rfl, rfl⟩
    · refine ⟨y, u.flatMap doubled ++ '\'' :: after, ?_, gapless⟩
      rw [List.flatMap_cons, doubled_of_ne y quote]
      rfl

/-- How a part in single quotes is read that begins with a character. -/
def singlePart (x : Char) (c : Cursor) : Except Fault (Text × Cursor) :=
  if x == '\'' then .ok ([x], c.advance 2) else if isGap x then quotedBlanks c else .ok ([x], c.step)

section Single

variable {budget n : Nat} {c : Cursor} {x : Char} {r : Text}

theorem single_quoted_round (first : c.rest = x :: r) (unclosed : x = '\'' → r.head? = some '\'') :
    singleQuoted (budget + 1) c = (singlePart x c).bind fun (part, d) =>
      (singleQuoted budget d).bind fun (t, d) => .ok (part ++ t, d) := by
  rw [singleQuoted, first]
  dsimp only
  rw [if_neg (by simpa using unclosed)]
  unfold singlePart
  split
  · rfl
  · split <;> rfl

-- A part in single quotes is read first, then the text after it.
theorem single_quoted_part {m : Nat} {part t : Text} {fails : Bool} (first : c.rest = x :: r)
    (unclosed : x = '\'' → r.head? = some '\'') (read : singlePart x c = .ok (part, c.advance n))
    (more : singleQuoted budget (c.advance n) = if fails then .error .malformed
      else .ok (t, (c.advance n).advance m)) :
    singleQuoted (budget + 1) c = if fails then .error .malformed else .ok (part ++ t, c.advance (n + m)) := by
  rw [single_quoted_round first unclosed, read, Except.bind]
  dsimp only
  rw [more, Cursor.advance_add]
  split <;> rfl

-- A character that is no gap is a part of its own.
theorem single_char_part {after : Text} (rest : c.rest = doubled x ++ after) (bare : isGap x = false) :
    ∃ r, c.rest = x :: r ∧ (x = '\'' → r.head? = some '\'') ∧
      singlePart x c = .ok ([x], c.advance (doubled x).length) := by
  by_cases quote : x = '\''
  · subst quote
    exact ⟨'\'' :: after, rest, fun _ => rfl, rfl⟩
  · rw [doubled_of_ne x quote] at rest ⊢
    refine ⟨after, rest, fun same => absurd same quote, ?_⟩
    rw [singlePart, if_neg (by simpa using quote), bare, if_neg Bool.false_ne_true]
    rfl

end Single

-- A run of gaps is a part, folded, unless a mark between documents stands at the start of the line
-- after it.
theorem single_gaps_part (gaps r : Text) (all : ∀ y ∈ gaps, isGap y = true) (some : gaps ≠ [])
    (bare : r.head?.all fun x => !isGap x) : ∃ folded, ∀ (c : Cursor) (after : Text),
      c.rest = gaps ++ (r.flatMap doubled ++ '\'' :: after) → ∃ y more, c.rest = y :: more ∧ y ≠ '\'' ∧
        singlePart y c = if reachesLine gaps && beginsMark (r ++ ['\'']) then .error .malformed
          else .ok (folded, c.advance gaps.length) := by
  obtain ⟨folded, blanks⟩ := quoted_blanks_gaps gaps all some
  refine ⟨folded, fun c after rest => ?_⟩
  obtain ⟨x, u, same, gapless⟩ := doubled_bare r after bare
  have passed := blanks c x u gapless (rest.trans (by rw [same]))
  rw [← same, begins_mark_doubled] at passed
  obtain ⟨y, more, rfl⟩ := List.exists_cons_of_ne_nil some
  have gap := all y List.mem_cons_self
  have other : y ≠ '\'' := by
    rintro rfl
    exact absurd gap (by decide)
  refine ⟨y, _, rest, other, ?_⟩
  rw [singlePart, if_neg (by simpa using other), gap, if_pos rfl, passed]

-- A text in single quotes is read whole, its line breaks folded, or not at all.
theorem single_quoted_reads (s : Text) : ∃ t, ∀ (budget : Nat) (c : Cursor) (after : Text),
    c.rest = s.flatMap doubled ++ '\'' :: after → after.head? ≠ some '\'' → s.length < budget →
      singleQuoted budget c = if meetsMark s then .error .malformed
        else .ok (t, c.advance ((s.flatMap doubled).length + 1)) := by
  -- By the text's length: a run of gaps is read in one round.
  induction size : s.length using Nat.strong_induction_on generalizing s with
  | _ size ih =>
    obtain ⟨gaps, r, rfl, all, bare⟩ := gaps_first s
    by_cases some : gaps = []
    · subst some
      cases r with
      | nil =>
        refine ⟨[], fun budget c after rest closed enough => ?_⟩
        obtain ⟨budget, rfl⟩ := Nat.exists_eq_succ_of_ne_zero (Nat.ne_of_gt (Nat.zero_lt_of_lt enough))
        have first : c.rest = '\'' :: after := rest
        unfold singleQuoted
        rw [first]
        simp [closed, meetsMark, Cursor.advance]
      | cons x r =>
        obtain ⟨t, read⟩ := ih r.length (by simp at size; omega) r rfl
        refine ⟨[x] ++ t, fun budget c after rest closed enough => ?_⟩
        obtain ⟨budget, rfl⟩ := Nat.exists_eq_succ_of_ne_zero (Nat.ne_of_gt (Nat.zero_lt_of_lt enough))
        have shorter : r.length < budget := by simp at size; omega
        have gapless : isGap x = false := by simpa using bare
        have same : meetsMark (x :: r) = meetsMark r := by
          have unbroken : isBreak x = false := by simp_all [isGap]
          simp [meetsMark, unbroken]
        rw [List.nil_append, List.flatMap_cons, List.append_assoc] at rest
        have left := Cursor.advance_run_rest rest
        obtain ⟨u, first, unclosed, part⟩ := single_char_part rest gapless
        rw [List.nil_append, List.flatMap_cons, List.length_append, same, Nat.add_assoc]
        exact single_quoted_part first unclosed part (read budget _ after left closed shorter)
    · have positive := List.length_pos_iff.2 some
      obtain ⟨t, read⟩ := ih r.length (by rw [List.length_append] at size; omega) r rfl
      obtain ⟨folded, gapped⟩ := single_gaps_part gaps r all some bare
      refine ⟨folded ++ t, fun budget c after rest closed enough => ?_⟩
      obtain ⟨budget, rfl⟩ := Nat.exists_eq_succ_of_ne_zero (Nat.ne_of_gt (Nat.zero_lt_of_lt enough))
      have shorter : r.length < budget := by rw [List.length_append] at size; omega
      rw [flat_map_gaps gaps r all, List.append_assoc] at rest
      have left := Cursor.advance_run_rest rest
      obtain ⟨y, more, first, other, part⟩ := gapped c after rest
      have unclosed : y = '\'' → more.head? = Option.some '\'' := fun quote => absurd quote other
      rw [meets_mark_gaps gaps r all some, flat_map_gaps gaps r all, List.length_append, Nat.add_assoc]
      -- A mark after the gaps fails here; one later fails in the rest.
      by_cases mark : (reachesLine gaps && beginsMark (r ++ ['\''])) = true
      · rw [if_pos mark] at part
        rw [mark, Bool.true_or, if_pos rfl, single_quoted_round first unclosed, part]
        rfl
      · rw [if_neg mark] at part
        rw [Bool.eq_false_iff.2 mark, Bool.false_or]
        exact single_quoted_part first unclosed part (read budget _ after left closed shorter)

/-- What a text in single quotes is read as. -/
noncomputable def singleText (s : Text) : Text := (single_quoted_reads s).choose

theorem single_text_reads (s : Text) (budget : Nat) (c : Cursor) (after : Text)
    (rest : c.rest = s.flatMap doubled ++ '\'' :: after) (closed : after.head? ≠ some '\'')
    (enough : s.length < budget) : singleQuoted budget c = if meetsMark s then .error .malformed
      else .ok (singleText s, c.advance ((s.flatMap doubled).length + 1)) :=
  (single_quoted_reads s).choose_spec budget c after rest closed enough

end PipelineMigration.Yaml
