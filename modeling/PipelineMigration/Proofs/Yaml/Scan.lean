import PipelineMigration.Proofs.Yaml.Line
set_option autoImplicit false

/- Scanning line by line. Between two tokens the scan is told by its place, its open collections and the
   tokens so far; each token leads from one such scan to another. -/
namespace PipelineMigration.Yaml

open Cursor

/-- Whether a token can stand in a malformed text: it is not the end, and no fault of another kind. -/
def Token.isInner : Token → Bool
  | .streamEnd => false
  | .broken f => f == .malformed
  | _ => true

/-- Tokens that do not come to the end of the text, and break off only because it is malformed. -/
def Unended (tokens : List Token) : Prop := ∀ t ∈ tokens, t.isInner = true

@[simp] theorem unended_nil : Unended [] := fun _ none => nomatch none

@[simp] theorem unended_cons {t : Token} {tokens : List Token} :
    Unended (t :: tokens) ↔ t.isInner = true ∧ Unended tokens :=
  List.forall_mem_cons

@[simp] theorem unended_append {front back : List Token} : Unended (front ++ back) ↔ Unended front ∧ Unended back :=
  List.forall_mem_append

@[simp] theorem unended_reverse {tokens : List Token} : Unended tokens.reverse ↔ Unended tokens := by
  simp [Unended]

namespace Scan

/-- The tokens from a scan that stands before the next token. -/
def proceed (fuel : Nat) (s : Scan) : List Token :=
  let s := s.close s.cursor.column
  match s.cursor.rest with
  | [] => match (s.close (-1)).dropKey with
    | .error f => (Token.broken f :: s.tokens).reverse
    | .ok s => (Token.streamEnd :: s.tokens).reverse
  | c :: r => match s.token c r with
    | .error f => (Token.broken f :: s.tokens).reverse
    | .ok s => run fuel s

theorem run_succ (fuel : Nat) (s t : Scan) (settled : (skipToToken s.budget s).dropStaleKeys = .ok t) :
    run (fuel + 1) s = proceed fuel t := by
  rw [run, settled]
  rfl

/-- A scan goes on as another does, which has less of the text before it. -/
def Leads (s t : Scan) : Prop :=
  ∀ fuel, s.cursor.rest.length < fuel → ∃ left, t.cursor.rest.length < left ∧ s.proceed fuel = t.proceed left

theorem Leads.refl (s : Scan) : Leads s s := fun fuel enough => ⟨fuel, enough, rfl⟩

theorem Leads.trans {s t u : Scan} (first : Leads s t) (second : Leads t u) : Leads s u := by
  intro fuel enough
  obtain ⟨left, enough, same⟩ := first fuel enough
  obtain ⟨last, enough, further⟩ := second left enough
  exact ⟨last, enough, same.trans further⟩

theorem leads_of_token {s t u : Scan} {x : Char} {r : Text} (rest : s.cursor.rest = x :: r)
    (closed : s.close s.cursor.column = s) (read : s.token x r = .ok t)
    (settled : (skipToToken t.budget t).dropStaleKeys = .ok u)
    (shorter : u.cursor.rest.length < s.cursor.rest.length) : Leads s u := by
  intro fuel enough
  obtain ⟨fuel, rfl⟩ := Nat.exists_eq_succ_of_ne_zero (Nat.ne_of_gt (Nat.zero_lt_of_lt enough))
  refine ⟨fuel, by omega, ?_⟩
  rw [← run_succ fuel t u settled]
  unfold proceed
  rw [closed]
  dsimp only
  rw [rest]
  dsimp only
  rw [read]

/-- A scan does not come to the end of the text, because the text is malformed. -/
def Breaks (s : Scan) : Prop := ∀ fuel, s.cursor.rest.length < fuel → Unended s.tokens → Unended (s.proceed fuel)

theorem unended_broken {tokens : List Token} (none : Unended tokens) :
    Unended (Token.broken .malformed :: tokens).reverse :=
  unended_reverse.2 (unended_cons.2 ⟨rfl, none⟩)

theorem breaks_of_token {s : Scan} {x : Char} {r : Text} (rest : s.cursor.rest = x :: r)
    (closed : s.close s.cursor.column = s) (read : s.token x r = .error .malformed) : Breaks s := by
  intro fuel _ none
  unfold proceed
  rw [closed]
  dsimp only
  rw [rest]
  dsimp only
  rw [read]
  exact unended_broken none

-- What cannot be settled after a token breaks the scan off.
theorem breaks_of_settle {s t : Scan} {x : Char} {r : Text} (rest : s.cursor.rest = x :: r)
    (closed : s.close s.cursor.column = s) (read : s.token x r = .ok t)
    (unsettled : (skipToToken t.budget t).dropStaleKeys = .error .malformed)
    (same : Unended s.tokens → Unended t.tokens) : Breaks s := by
  intro fuel enough none
  obtain ⟨fuel, rfl⟩ := Nat.exists_eq_succ_of_ne_zero (Nat.ne_of_gt (Nat.zero_lt_of_lt enough))
  unfold proceed
  rw [closed]
  dsimp only
  rw [rest]
  dsimp only
  rw [read]
  dsimp only
  rw [run, unsettled]
  exact unended_broken (same none)

theorem breaks_of_leads {s t : Scan} (leads : Leads s t) (breaks : Breaks t)
    (same : Unended s.tokens → Unended t.tokens) : Breaks s := by
  intro fuel enough none
  obtain ⟨left, further, equal⟩ := leads fuel enough
  rw [equal]
  exact breaks left further (same none)

/-- A scan between two tokens, outside of brackets and without a possible key; tokens latest first. -/
def poised (c : Cursor) (budget : Nat) (stack : Stack) (tokens : List Token) (allowKey : Bool) : Scan :=
  { cursor := c, budget, indent := stack.top, outerIndents := stack.under, allowKey, tokens
    count := tokens.length }

theorem close_of_le (s : Scan) (column : Int) (inside : s.indent ≤ column) : s.close column = s := by
  unfold close closeTo
  rw [if_neg]
  simp only [Bool.and_eq_true, decide_eq_true_eq, not_and]
  omega

theorem close_in_brackets (s : Scan) (column : Int) (brackets : s.inBrackets = true) :
    s.close column = s := by
  unfold close closeTo
  rw [brackets]
  rfl

theorem under_length (stack : Stack) : stack.under.length = stack.length := by
  induction stack with
  | nil => rfl
  | cons c rest ih => rw [Stack.under, List.length_cons, List.length_cons, ih]

section Poised

variable {c : Cursor} {budget : Nat} {stack : Stack} {tokens : List Token} {allowKey : Bool}

theorem close_to_poised (stack : Stack) (tokens : List Token) (column fuel : Nat)
    (enough : stack.length < fuel) : (poised c budget stack tokens allowKey).closeTo column fuel =
      poised c budget (stack.closeTo column) ((stack.ends column).reverse ++ tokens) allowKey := by
  induction fuel generalizing stack tokens with
  | zero => exact absurd enough (Nat.not_lt_zero _)
  | succ fuel ih =>
    unfold closeTo
    cases stack with
    | nil =>
      rw [if_neg]
      · rfl
      · have outermost : ¬ ((column : Int) < -1) := by omega
        simp [poised, Stack.top, outermost]
    | cons d rest =>
      by_cases deeper : column < d
      · rw [if_pos]
        · have popped := ih rest (.blockEnd :: tokens) (by simpa using enough)
          refine Eq.trans ?_ (popped.trans ?_)
          · rfl
          · simp [Stack.closeTo, Stack.ends, deeper]
        · simpa [poised, Stack.top, inBrackets] using deeper
      · rw [if_neg]
        · simp [Stack.closeTo, Stack.ends, deeper]
        · simpa [poised, Stack.top, inBrackets] using deeper

theorem close_poised (stack : Stack) (tokens : List Token) (column : Nat) :
    (poised c budget stack tokens allowKey).close column =
      poised c budget (stack.closeTo column) ((stack.ends column).reverse ++ tokens) allowKey :=
  close_to_poised stack tokens column _ (by simp [poised, under_length])

theorem top_close_to (column : Nat) : (stack.closeTo column).top ≤ column := by
  unfold Stack.closeTo
  cases left : stack.dropWhile (column < ·) with
  | nil =>
    simp only [Stack.top]
    omega
  | cons d rest =>
    have stop := List.head?_dropWhile_not (fun d => decide (column < d)) stack
    rw [left] at stop
    have shallow : ¬ column < d := by simpa using stop
    simp only [Stack.top]
    omega

-- Before a token the deeper collections are closed.
theorem leads_close : Leads (poised c budget stack tokens allowKey) (poised c budget (stack.closeTo c.column)
    ((stack.ends c.column).reverse ++ tokens) allowKey) := by
  intro fuel enough
  refine ⟨fuel, enough, ?_⟩
  have once := @close_poised c budget allowKey stack tokens c.column
  have twice := close_of_le (poised c budget (stack.closeTo c.column)
    ((stack.ends c.column).reverse ++ tokens) allowKey) c.column (top_close_to c.column)
  unfold proceed
  dsimp only [poised] at once twice ⊢
  rw [once, twice]

theorem close_all_to (stack : Stack) (tokens : List Token) (fuel : Nat) (enough : stack.length < fuel) :
    (poised c budget stack tokens allowKey).closeTo (-1) fuel =
      poised c budget [] ((stack.map fun _ => Token.blockEnd).reverse ++ tokens) allowKey := by
  induction fuel generalizing stack tokens with
  | zero => exact absurd enough (Nat.not_lt_zero _)
  | succ fuel ih =>
    unfold closeTo
    cases stack with
    | nil => rfl
    | cons d rest =>
      have deeper : (-1 : Int) < d := by omega
      rw [if_pos (by simp [poised, Stack.top, inBrackets, deeper])]
      have popped := ih rest (.blockEnd :: tokens) (by simpa using enough)
      refine Eq.trans ?_ (popped.trans ?_)
      · rfl
      · simp

-- A scan at the end of a text closes what is open.
theorem proceed_end (fuel : Nat) (ends : c.rest = []) :
    (poised c budget stack tokens allowKey).proceed fuel =
      (Token.streamEnd :: ((stack.map fun _ => Token.blockEnd).reverse ++ tokens)).reverse := by
  have once := @close_poised c budget allowKey stack tokens c.column
  have all := @close_all_to c budget allowKey (stack.closeTo c.column)
    ((stack.ends c.column).reverse ++ tokens) ((stack.closeTo c.column).under.length + 1) (by rw [under_length]; omega)
  have whole : ((stack.closeTo c.column).map fun _ => Token.blockEnd).reverse ++
      ((stack.ends c.column).reverse ++ tokens) = (stack.map fun _ => Token.blockEnd).reverse ++ tokens := by
    rw [← List.append_assoc, ← List.reverse_append]
    unfold Stack.ends Stack.closeTo
    rw [← List.map_append, List.takeWhile_append_dropWhile]
  rw [whole] at all
  unfold proceed
  dsimp only [poised] at once ⊢
  rw [once]
  dsimp only [poised]
  rw [ends]
  dsimp only
  unfold close
  dsimp only [poised] at all ⊢
  rw [all]
  rfl

end Poised

-- Without possible keys none is stale.
theorem drop_stale_none (s : Scan) (none : s.possibleKeys = []) : s.dropStaleKeys = .ok s := by
  unfold dropStaleKeys
  cases s
  simp_all

-- On a later line the possible keys of a line are given up, unless one of them had to become one.
theorem drop_stale_all (s : Scan) (stale : ∀ k ∈ s.possibleKeys, k.line < s.cursor.line)
    (free : ∀ k ∈ s.possibleKeys, k.required = false) :
    s.dropStaleKeys = .ok { s with possibleKeys := [] } := by
  have gone (k : PossibleKey) (member : k ∈ s.possibleKeys) : isStale s.cursor k = true := by
    have earlier := stale k member
    have other : k.line ≠ s.cursor.line := by omega
    simp [isStale, other]
  unfold dropStaleKeys
  rw [if_neg, List.filter_eq_nil_iff.2 fun k member => by simp [gone k member]]
  simp only [List.any_eq_true, Bool.and_eq_true, not_exists, not_and, Bool.not_eq_true]
  exact fun k member _ => free k member

/-- The possible key of a token that begins at a place outside of brackets. -/
def noted (c : Cursor) (stack : Stack) (count : Nat) : PossibleKey :=
  ⟨0, count, c.index, c.line, c.column, stack.top == (c.column : Int)⟩

theorem note_key_poised (c : Cursor) (budget : Nat) (stack : Stack) (tokens : List Token) (allowKey : Bool) :
    (poised c budget stack tokens allowKey).noteKey = .ok { poised c budget stack tokens allowKey with
      possibleKeys := if allowKey then [noted c stack tokens.length] else [] } := by
  cases allowKey <;> rfl

-- Between two tokens on a line there are only spaces.
theorem settle_spaces {c : Cursor} {budget : Nat} (stack : Stack) (tokens : List Token) (allowKey : Bool)
    {body : Text} (opens : opensHere body = true) (n : Nat) (rest : c.rest = List.replicate n ' ' ++ body)
    (positive : 0 < budget) :
    ((poised c budget stack tokens allowKey).skipToToken budget).dropStaleKeys =
      .ok (poised (c.advance n) budget stack tokens allowKey) := by
  have skipped := skip_to_token_opens opens (s := poised c budget stack tokens allowKey) n budget positive rest
  rw [skipped]
  exact drop_stale_none _ rfl

section Dash

theorem begins_mark_dash (r : Text) : beginsMark ('-' :: ' ' :: r) = false := by
  simp [beginsMark, Text.startsWith, List.isPrefixOf]

theorem entry_mark_poised (c : Cursor) (budget : Nat) (stack : Stack) (tokens : List Token) :
    (poised c budget stack tokens true).entryMark = .ok (poised c.step budget (stack.enter c.column)
      (.blockEntry :: ((stack.opening c.column .blockSequenceStart).reverse ++ tokens)) true) := by
  unfold Stack.enter Stack.opening
  by_cases deeper : stack.top < c.column
  · rw [if_pos deeper, if_pos deeper]
    have opened : (poised c budget stack tokens true).openAt c.column (emit .blockSequenceStart) =
        poised c budget (c.column :: stack) (.blockSequenceStart :: tokens) true := if_pos deeper
    unfold entryMark blockMark
    dsimp only [poised, inBrackets] at opened ⊢
    rw [opened]
    rfl
  · rw [if_neg deeper, if_neg deeper]
    have opened : (poised c budget stack tokens true).openAt c.column (emit .blockSequenceStart) =
        poised c budget stack tokens true := if_neg deeper
    unfold entryMark blockMark
    dsimp only [poised, inBrackets] at opened ⊢
    rw [opened]
    rfl

-- A dash begins an item, and what stands after it may be a key.
theorem leads_dash {c : Cursor} {budget : Nat} {stack : Stack} {tokens : List Token} {body : Text}
    (rest : c.rest = '-' :: ' ' :: body) (opens : opensHere body = true) (inside : stack.top ≤ c.column)
    (positive : 0 < budget) :
    Leads (poised c budget stack tokens true) (poised (c.advance 2) budget (stack.enter c.column)
      (.blockEntry :: ((stack.opening c.column .blockSequenceStart).reverse ++ tokens)) true) := by
  have further : c.step.rest = List.replicate 1 ' ' ++ body := by
    rw [step_rest, rest]
    rfl
  refine leads_of_token rest (close_of_le _ _ inside) (t := poised c.step budget (stack.enter c.column)
    (.blockEntry :: ((stack.opening c.column .blockSequenceStart).reverse ++ tokens)) true) ?_ ?_ ?_
  · rw [← entry_mark_poised]
    unfold token
    rw [begins_mark_dash]
    simp [endsWord, isGap, isTabOrSpace]
  · exact settle_spaces _ _ _ opens 1 further positive
  · have shorter : (c.advance 2).rest.length < c.rest.length := by
      rw [advance_rest, rest]
      simp only [List.drop_succ_cons, List.drop_zero, List.length_cons]
      omega
    exact shorter

end Dash

/-- Characters that can only begin a plain scalar. -/
structure BeginsPlain (x : Char) (column : Nat) : Prop where
  gapless : isGap x = false
  unmarked : indicators.contains x = false
  inLine : x ≠ '.' ∨ column ≠ 0

theorem token_plain (s : Scan) (x : Char) (r : Text) (begins : BeginsPlain x s.cursor.column) :
    s.token x r = s.plainWord := by
  have unlike (y : Char) (mark : indicators.contains y = true) : (x == y) = false := by
    rw [beq_eq_false_iff_ne]
    rintro rfl
    exact Bool.noConfusion (mark.symm.trans begins.unmarked)
  have dots : (x == '.' && s.cursor.column == 0 && beginsMark (x :: r)) = false := by
    rcases begins.inLine with other | column
    · simp [other]
    · simp [column]
  have plain : beginsPlain s.inBrackets x r = true := by
    unfold beginsPlain
    rw [begins.gapless, begins.unmarked]
    rfl
  unfold token
  dsimp only
  rw [dots, plain]
  simp only [unlike '%' rfl, unlike '-' rfl, unlike '[' rfl, unlike '\x7b' rfl, unlike ']' rfl,
    unlike '\x7d' rfl, unlike ',' rfl, unlike '?' rfl, unlike ':' rfl, unlike '*' rfl, unlike '&' rfl,
    unlike '!' rfl, unlike '|' rfl, unlike '>' rfl, unlike '\'' rfl, unlike '"' rfl, Bool.false_and,
    Bool.false_eq_true, if_false, if_true]

theorem token_double (s : Scan) (r : Text) : s.token '"' r = s.word doubleWord := by
  unfold token
  simp [beginsMark, Text.startsWith, List.isPrefixOf]

theorem token_single (s : Scan) (r : Text) : s.token '\'' r = s.word singleWord := by
  unfold token
  simp [beginsMark, Text.startsWith, List.isPrefixOf]

theorem token_colon (s : Scan) (r : Text) (gap : endsWord r = true) : s.token ':' r = s.valueMark := by
  unfold token
  simp [beginsMark, Text.startsWith, List.isPrefixOf, gap]

/-- After a token that may begin a key. -/
def afterWord (c d : Cursor) (budget : Nat) (stack : Stack) (tokens : List Token) (t : Token)
    (allowKey : Bool) : Scan :=
  { poised d budget stack (t :: tokens) false with
    possibleKeys := if allowKey then [noted c stack tokens.length] else [] }

section Word

variable {c : Cursor} {budget : Nat} {stack : Stack} {tokens : List Token} {allowKey : Bool} {after : Text}

theorem word_poised (read : Nat → Cursor → Except Fault (Token × Cursor)) (t : Token) (d : Cursor)
    (reads : read budget c = .ok (t, d)) : (poised c budget stack tokens allowKey).word read =
      .ok (afterWord c d budget stack tokens t allowKey) := by
  unfold word
  rw [note_key_poised]
  dsimp only [poised] at reads ⊢
  change (read budget c).bind _ = _
  rw [reads]
  rfl

theorem double_word_reads (s : Text) (rest : c.rest = quote s ++ after) (enough : c.rest.length < budget) :
    doubleWord budget c = .ok (.scalar s false, c.advance (quote s).length) := by
  have inner : c.step.rest = s.flatMap quoteChar ++ '"' :: after := by
    rw [step_rest, rest]
    simp [quote]
  have shorter : s.length < budget := by
    have bound := length_le_flat_map quoteChar quote_char_ne_nil s
    rw [rest] at enough
    simp only [quote, List.length_append, List.length_cons] at enough
    omega
  have same : c.advance (quote s).length = c.step.advance ((s.flatMap quoteChar).length + 1) := by
    rw [← advance_succ]
    congr 1
    simp [quote]
  unfold doubleWord
  rw [double_quoted_reads budget s after c.step inner shorter, same]
  rfl

theorem double_word_poised (s : Text) (rest : c.rest = quote s ++ after) (enough : c.rest.length < budget) :
    (poised c budget stack tokens allowKey).word doubleWord =
      .ok (afterWord c (c.advance (quote s).length) budget stack tokens (.scalar s false) allowKey) :=
  word_poised doubleWord _ _ (double_word_reads s rest enough)

theorem single_word_poised (stack : Stack) (tokens : List Token) (allowKey : Bool) (s : Text)
    (rest : c.rest = singleQuote s ++ after) (closed : after.head? ≠ some '\'') (enough : c.rest.length < budget) :
    (poised c budget stack tokens allowKey).word singleWord =
      if meetsMark s then .error .malformed
      else .ok (afterWord c (c.advance (singleQuote s).length) budget stack tokens
        (.scalar (singleText s) false) allowKey) := by
  have inner : c.step.rest = s.flatMap doubled ++ '\'' :: after := by
    rw [step_rest, rest, single_quote_eq]
    simp
  have shorter : s.length < budget := by
    have bound := length_le_flat_map doubled doubled_ne_nil s
    rw [rest, single_quote_eq] at enough
    simp only [List.length_append, List.length_cons] at enough
    omega
  have reads := single_text_reads s budget c.step after inner closed shorter
  have same : c.advance (singleQuote s).length = c.step.advance ((s.flatMap doubled).length + 1) := by
    rw [← advance_succ, single_quote_eq]
    congr 1
    simp
  by_cases mark : meetsMark s = true
  · rw [if_pos mark] at reads ⊢
    unfold word
    rw [note_key_poised]
    dsimp only [poised]
    change (singleWord budget c).bind _ = _
    unfold singleWord
    rw [reads]
    rfl
  · rw [if_neg mark] at reads ⊢
    refine word_poised singleWord _ _ ?_
    unfold singleWord
    rw [reads, same]
    rfl

end Word

section KeyWord

variable {c : Cursor} {budget : Nat} {stack : Stack} {tokens : List Token} {k : Key} {r : Text}

-- The first token of an entry is its key, so far a scalar like any other.
theorem key_word_poised (stack : Stack) (tokens : List Token) (fits : k.Fits)
    (rest : c.rest = k.text ++ ':' :: r) (gap : endsWord r = true)
    (enough : c.rest.length < budget) : ∃ x t, c.rest = x :: t ∧
      (poised c budget stack tokens true).token x t =
        .ok (afterWord c (c.advance k.text.length) budget stack tokens k.token true) := by
  obtain ⟨name, bare⟩ := k
  cases bare with
  | true =>
    have identifier := fits rfl
    obtain ⟨nonempty, chars⟩ := identifier_chars name identifier
    obtain ⟨x, t, rfl⟩ := List.exists_cons_of_ne_nil nonempty
    obtain ⟨gapless, unmarked, inLine⟩ := identifier_char x (chars x List.mem_cons_self)
    refine ⟨x, t ++ ':' :: r, rest, ?_⟩
    rw [token_plain _ x _ ⟨gapless, unmarked, .inl inLine⟩]
    obtain ⟨budget, rfl⟩ := Nat.exists_eq_succ_of_ne_zero (Nat.ne_of_gt (Nat.zero_lt_of_lt enough))
    have reads := plain_key_reads (stack.top + 1) budget c (x :: t) r (identifier_plain_word _ identifier)
      rest gap
    unfold plainWord
    rw [note_key_poised]
    dsimp only [poised, inBrackets] at reads ⊢
    change Except.ok _ = Except.ok _
    dsimp only
    rw [show decide (0 < 0) = false from rfl, reads]
    rfl
  | false =>
    have rest : c.rest = quote name ++ ':' :: r := rest
    refine ⟨'"', name.flatMap quoteChar ++ '"' :: ':' :: r, by rw [rest]; simp [quote], ?_⟩
    rw [token_double]
    exact double_word_poised name rest enough

theorem find_noted (s : Scan) (k : PossibleKey) (only : s.possibleKeys = [k]) (here : k.depth = s.depth) :
    s.possibleKeys.find? (fun k => k.depth == s.depth) = some k := by
  simp [only, here]

theorem emit_at_key (budget : Nat) (stack : Stack) (tokens : List Token) (d : Cursor) (t : Token) :
    (poised d budget stack (t :: tokens) false).emitAt tokens.length .key =
      poised d budget stack (t :: .key :: tokens) false := by
  have place : (t :: tokens).length - tokens.length = 1 := by rw [List.length_cons]; omega
  unfold emitAt
  dsimp only [poised]
  rw [place]
  rfl

theorem emit_at_mapping (d : Cursor) (t : Token) (inner : Stack) :
    (poised d budget inner (t :: .key :: tokens) false).emitAt tokens.length .blockMappingStart =
      poised d budget inner (t :: .key :: .blockMappingStart :: tokens) false := by
  have place : (t :: Token.key :: tokens).length - tokens.length = 2 := by
    rw [List.length_cons, List.length_cons]
    omega
  unfold emitAt
  dsimp only [poised]
  rw [place]
  rfl

theorem confirm_noted (d : Cursor) (t : Token) :
    (afterWord c d budget stack tokens t true).confirmKey (noted c stack tokens.length) =
      poised d budget (stack.enter c.column)
        (t :: .key :: ((stack.opening c.column .blockMappingStart).reverse ++ tokens)) false := by
  have marked := emit_at_key budget stack tokens d t
  have outside : (poised d budget stack (t :: .key :: tokens) false).inBrackets = false := rfl
  have unfolded : (afterWord c d budget stack tokens t true).confirmKey (noted c stack tokens.length) =
      (poised d budget stack (t :: .key :: tokens) false).openAt c.column
        (emitAt tokens.length .blockMappingStart) := by
    rw [← marked]
    rfl
  rw [unfolded]
  unfold Stack.enter Stack.opening
  by_cases deeper : stack.top < c.column
  · rw [if_pos deeper, if_pos deeper]
    refine Eq.trans (if_pos deeper) ?_
    exact emit_at_mapping d t (c.column :: stack)
  · rw [if_neg deeper, if_neg deeper]
    exact if_neg deeper

-- A colon after a possible key makes it a key, and opens a mapping where it is the first.
theorem value_mark_after_word (d : Cursor) (t : Token) : (afterWord c d budget stack tokens t true).valueMark =
    .ok (poised d.step budget (stack.enter c.column) (.value :: t :: .key ::
      ((stack.opening c.column .blockMappingStart).reverse ++ tokens)) false) := by
  unfold valueMark
  rw [find_noted _ (noted c stack tokens.length) rfl rfl]
  dsimp only
  rw [confirm_noted]
  rfl

theorem after_word_closed (d : Cursor) (t : Token) (inside : stack.top ≤ c.column)
    (right : c.column ≤ d.column) (allowKey : Bool) :
    (afterWord c d budget stack tokens t allowKey).close d.column =
      afterWord c d budget stack tokens t allowKey :=
  close_of_le _ _ (Int.le_trans inside (by omega))

theorem skip_after_word (d : Cursor) (t : Token) (left : d.rest = ':' :: r) (positive : 0 < budget) :
    (afterWord c d budget stack tokens t true).skipToToken budget =
      afterWord c d budget stack tokens t true :=
  @skip_to_token_opens (':' :: r) rfl (afterWord c d budget stack tokens t true) 0 budget positive left

variable (fits : k.Fits) (rest : c.rest = k.text ++ ':' :: r) (gap : endsWord r = true)
  (enough : c.rest.length < budget) (inside : stack.top ≤ c.column)

include fits rest gap enough inside

-- A short key and the colon after it.
theorem leads_key (short : k.isShort = true) {u : Scan}
    (settled : ((poised (c.advance (k.text.length + 1)) budget (stack.enter c.column) (.value :: k.token :: .key ::
      ((stack.opening c.column .blockMappingStart).reverse ++ tokens)) false).skipToToken
        budget).dropStaleKeys = .ok u) (shorter : u.cursor.rest.length ≤ r.length) :
    Leads (poised c budget stack tokens true) u := by
  have left := advance_run_rest rest
  have index := advance_run_index rest
  obtain ⟨line, right⟩ := advance_run_line rest (key_unbroken k fits)
  have positive := Nat.zero_lt_of_lt enough
  obtain ⟨x, t, first, read⟩ := key_word_poised stack tokens fits rest gap enough
  have fresh : isStale (c.advance k.text.length) (noted c stack tokens.length) = false := by
    have near : ¬ 1024 < (c.advance k.text.length).index - c.index := by
      simp only [Key.isShort, decide_eq_true_eq] at short
      omega
    simp [isStale, noted, line, near]
  have kept : (afterWord c (c.advance k.text.length) budget stack tokens k.token true).dropStaleKeys =
      .ok (afterWord c (c.advance k.text.length) budget stack tokens k.token true) := by
    unfold dropStaleKeys
    simp [afterWord, poised, fresh]
  have some : 0 < k.text.length := List.length_pos_iff.2 (key_text_ne_nil k fits)
  have whole : c.rest.length = k.text.length + (r.length + 1) := by
    rw [rest, List.length_append, List.length_cons]
  refine Leads.trans (t := afterWord c (c.advance k.text.length) budget stack tokens k.token true)
    (leads_of_token first (close_of_le _ _ inside) read ?_ ?_) ?_
  · exact (congrArg dropStaleKeys (skip_after_word _ _ left positive)).trans kept
  · change (c.advance k.text.length).rest.length < c.rest.length
    rw [left, List.length_cons]
    omega
  · refine leads_of_token left (after_word_closed _ _ inside right true)
      ((token_colon _ r gap).trans (value_mark_after_word _ _)) ?_ ?_
    · rw [advance_add] at settled
      exact settled
    · change u.cursor.rest.length < (c.advance k.text.length).rest.length
      rw [left, List.length_cons]
      omega

-- A key that is too long is not found to be one, and then its colon has no place.
theorem breaks_long_key (long : k.isShort = false) : Breaks (poised c budget stack tokens true) := by
  have left := advance_run_rest rest
  have index := advance_run_index rest
  obtain ⟨line, right⟩ := advance_run_line rest (key_unbroken k fits)
  have positive := Nat.zero_lt_of_lt enough
  obtain ⟨x, t, first, read⟩ := key_word_poised stack tokens fits rest gap enough
  have stale : isStale (c.advance k.text.length) (noted c stack tokens.length) = true := by
    have far : 1024 < (c.advance k.text.length).index - c.index := by
      simp only [Key.isShort, decide_eq_false_iff_not] at long
      omega
    simp [isStale, noted, far]
  have some : 0 < k.text.length := List.length_pos_iff.2 (key_text_ne_nil k fits)
  have whole : c.rest.length = k.text.length + (r.length + 1) := by
    rw [rest, List.length_append, List.length_cons]
  have noEnd : Unended tokens → Unended (k.token :: tokens) := fun none => unended_cons.2 ⟨rfl, none⟩
  cases required : (noted c stack tokens.length).required with
  | true =>
    refine breaks_of_settle first (close_of_le _ _ inside) read ?_ noEnd
    refine (congrArg dropStaleKeys (skip_after_word _ _ left positive)).trans ?_
    unfold dropStaleKeys
    simp [afterWord, poised, stale, required]
  | false =>
    have dropped : (afterWord c (c.advance k.text.length) budget stack tokens k.token true).dropStaleKeys =
        .ok (poised (c.advance k.text.length) budget stack (k.token :: tokens) false) := by
      unfold dropStaleKeys
      simp [afterWord, poised, stale, required]
    refine breaks_of_leads (leads_of_token first (close_of_le _ _ inside) read
      ((congrArg dropStaleKeys (skip_after_word _ _ left positive)).trans dropped) ?_) ?_ noEnd
    · change (c.advance k.text.length).rest.length < c.rest.length
      rw [left, List.length_cons]
      omega
    · refine breaks_of_token left (close_of_le _ _ (Int.le_trans inside (by exact_mod_cast right))) ?_
      rw [token_colon _ r gap]
      rfl

end KeyWord

section LineEnd

variable {c : Cursor} {budget : Nat} {stack : Stack} {tokens : List Token} {allowKey : Bool}
  {quiet : List (Nat × Text)} {n : Nat} {body : Text}
  (opens : opensHere body = true) (remarks : ∀ p ∈ quiet, isRemark p.2 = true)

-- A key that was possible on an earlier line, deeper than what is open, is given up.
theorem drop_noted (s : Scan) (count : Nat)
    (keys : s.possibleKeys = if allowKey then [noted c stack count] else []) (lines : c.line < s.cursor.line)
    (inside : stack.top < c.column) : s.dropStaleKeys = .ok { s with possibleKeys := [] } := by
  have only (k : PossibleKey) (member : k ∈ s.possibleKeys) : k = noted c stack count := by
    rw [keys] at member
    cases allowKey with
    | false => cases member
    | true => exact List.mem_singleton.1 member
  refine drop_stale_all s (fun k member => ?_) fun k member => ?_
  · rw [only k member]
    exact lines
  · rw [only k member]
    simp only [noted, beq_eq_false_iff_ne]
    omega

-- At the end of a line a word is no key any more, and the scan goes on where the next line begins.
theorem settle_after_word (d e : Cursor) (t : Token) (settles : Settles d e) {r : Text}
    (feed : d.rest = '\n' :: r) (enough : d.rest.length < budget) (lines : c.line < e.line)
    (inside : stack.top < c.column) :
    ((afterWord c d budget stack tokens t allowKey).skipToToken budget).dropStaleKeys =
      .ok (poised e budget stack (t :: tokens) true) := by
  rw [skip_to_token_feed (s := afterWord c d budget stack tokens t allowKey) budget settles feed enough rfl]
  exact drop_noted _ tokens.length rfl lines inside

theorem single_first (s : Text) {after : Text} (rest : c.rest = singleQuote s ++ after) :
    c.rest = '\'' :: (s.flatMap doubled ++ '\'' :: after) := by
  rw [rest, single_quote_eq]
  simp

theorem breaks_marked (s : Text) (marked : meetsMark s = true) {r : Text}
    (inside : stack.top < c.column) (enough : c.rest.length < budget)
    (rest : c.rest = singleQuote s ++ '\n' :: r) :
    Breaks (poised c budget stack tokens allowKey) := by
  have read := single_word_poised stack tokens allowKey s rest (by simp) enough
  rw [marked, if_pos rfl] at read
  exact breaks_of_token (single_first s rest)
    (close_of_le _ _ (Int.le_of_lt inside)) ((token_single _ _).trans read)

variable (inside : stack.top < c.column) (enough : c.rest.length < budget)

include opens remarks inside enough

theorem leads_word_end (w : Text) (t : Token) {x : Char} {r : Text} (first : c.rest = x :: r)
    (read : (poised c budget stack tokens allowKey).token x r =
      .ok (afterWord c (c.advance w.length) budget stack tokens t allowKey))
    (rest : c.rest = w ++ '\n' :: (quietText quiet ++ (List.replicate n ' ' ++ body))) :
    ∃ e, e.rest = body ∧ e.column = n ∧
      Leads (poised c budget stack tokens allowKey) (poised e budget stack (t :: tokens) true) := by
  have left := advance_run_rest rest
  obtain ⟨e, settles, whole, column, lines⟩ := settles_feed opens quiet remarks n _ left
  have onward := advance_line_le w.length c
  have fuel : (c.advance w.length).rest.length < budget := by
    rw [left]
    rw [rest, List.length_append] at enough
    omega
  refine ⟨e, whole, column, leads_of_token first (close_of_le _ _ (Int.le_of_lt inside)) read
    (settle_after_word _ e _ settles left fuel (by omega) inside) ?_⟩
  change e.rest.length < c.rest.length
  rw [whole, rest]
  simp only [List.length_append, List.length_cons]
  omega

theorem leads_double (s : Text)
    (rest : c.rest = quote s ++ '\n' :: (quietText quiet ++ (List.replicate n ' ' ++ body))) :
    ∃ e, e.rest = body ∧ e.column = n ∧
      Leads (poised c budget stack tokens allowKey) (poised e budget stack (.scalar s false :: tokens) true) := by
  have first : c.rest = '"' :: (s.flatMap quoteChar ++ '"' ::
      '\n' :: (quietText quiet ++ (List.replicate n ' ' ++ body))) := by
    rw [rest]
    simp [quote]
  exact leads_word_end opens remarks inside enough _ _ first
    ((token_double _ _).trans (double_word_poised s rest enough)) rest

theorem leads_single (s : Text) (unmarked : meetsMark s = false)
    (rest : c.rest = singleQuote s ++ '\n' :: (quietText quiet ++ (List.replicate n ' ' ++ body))) :
    ∃ e, e.rest = body ∧ e.column = n ∧ Leads (poised c budget stack tokens allowKey)
      (poised e budget stack (.scalar (singleText s) false :: tokens) true) := by
  have read := single_word_poised stack tokens allowKey s rest (by simp) enough
  rw [unmarked, if_neg Bool.false_ne_true] at read
  exact leads_word_end opens remarks inside enough _ _ (single_first s rest) ((token_single _ _).trans read) rest

/-- After a plain scalar and the gap behind it, which ends the line. -/
def afterPlain (c d : Cursor) (budget : Nat) (stack : Stack) (tokens : List Token) (s : Text)
    (allowKey : Bool) : Scan :=
  { poised d budget stack (.scalar s true :: tokens) true with
    possibleKeys := if allowKey then [noted c stack tokens.length] else [] }

omit opens remarks inside enough in
theorem plain_word_poised (s : Text) {x : Char} {r : Text} (begins : BeginsPlain x c.column) (d : Cursor)
    (reads : plain false (stack.top + 1) budget false [] c = (s, d, true)) :
    (poised c budget stack tokens allowKey).token x r = .ok (afterPlain c d budget stack tokens s allowKey) := by
  rw [token_plain _ x _ begins]
  unfold plainWord
  rw [note_key_poised]
  dsimp only [poised, inBrackets] at reads ⊢
  change Except.ok _ = Except.ok _
  dsimp only
  rw [show decide (0 < 0) = false from rfl, reads]
  rfl

-- A plain scalar at the end of a line, when nothing deeper follows.
theorem leads_plain (s : Text) (words : PlainText s)
    (begins : ∃ x r, s = x :: r ∧ indicators.contains x = false) (away : c.column ≠ 0) (flows : n ≤ stack.top)
    (rest : c.rest = s ++ '\n' :: (quietText quiet ++ (List.replicate n ' ' ++ body))) :
    ∃ e, e.rest = body ∧ e.column = n ∧
      Leads (poised c budget stack tokens allowKey) (poised e budget stack (.scalar s true :: tokens) true) := by
  have left := advance_run_rest rest
  obtain ⟨e, settles, whole, column, lines⟩ := settles_feed opens quiet remarks n _ left
  have onward := advance_line_le s.length c
  obtain ⟨broken, settled, ends⟩ := plain_gap_settles _ e settles left
  have within := plain_gap_length_le (c.advance s.length)
  -- The scalar stops at the gap: what follows is empty, a comment or not deep enough.
  have stops : ((plainGap (c.advance s.length)).text.isEmpty ||
      (plainGap (c.advance s.length)).after.looksAt (· == '#') ||
      decide (((plainGap (c.advance s.length)).after.column : Int) < stack.top + 1)) = true := by
    rcases ends with none | remark | same
    · rw [none]
      rfl
    · rw [remark, Bool.or_true, Bool.true_or]
    · rw [same, column, decide_eq_true (by omega), Bool.or_true]
  have fuel : s.length ≤ budget := by
    rw [rest, List.length_append] at enough
    omega
  have reads := plain_leaf_reads words (stack.top + 1) budget false [] c _ rest fuel (by omega) stops
  rw [broken, List.nil_append] at reads
  obtain ⟨x, r, rfl, unmarked⟩ := begins
  obtain ⟨_, _, same, gapless, -⟩ := plain_text_first words
  obtain ⟨rfl, -⟩ := List.cons.inj same
  have read := @plain_word_poised c budget stack tokens allowKey _ x
    (r ++ '\n' :: (quietText quiet ++ (List.replicate n ' ' ++ body))) ⟨gapless, unmarked, .inr away⟩ _ reads
  refine ⟨e, whole, column, leads_of_token rest (close_of_le _ _ (Int.le_of_lt inside)) read ?_ ?_⟩
  · have shorter : (plainGap (c.advance (x :: r).length)).after.rest.length < budget := by
      rw [left] at within
      rw [rest, List.length_append] at enough
      exact Nat.lt_of_le_of_lt within (by omega)
    have skipped := skip_to_token_settles (s := afterPlain c (plainGap (c.advance (x :: r).length)).after budget
      stack tokens (x :: r) allowKey) budget settled shorter rfl
    exact (congrArg dropStaleKeys skipped).trans
      (drop_noted _ tokens.length rfl (Nat.lt_of_le_of_lt onward lines) inside)
  · change e.rest.length < c.rest.length
    rw [whole, rest]
    simp only [List.length_append, List.length_cons]
    omega

end LineEnd

end Scan
end PipelineMigration.Yaml
