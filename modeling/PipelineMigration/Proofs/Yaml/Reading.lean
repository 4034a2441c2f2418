import PipelineMigration.Proofs.Yaml.Bracket
set_option autoImplicit false

/- The tokens of texts that are laid out in lines: those that the lines spell when each of them can be read,
   and else tokens that do not come to an end. -/
namespace PipelineMigration.Yaml

open Cursor

namespace Scan

theorem top_enter (stack : Stack) (column : Nat) (inside : stack.top ≤ column) :
    (stack.enter column).top = column := by
  unfold Stack.enter
  split
  · rfl
  · omega

theorem unended_opening (stack : Stack) (column : Nat) (t : Token) (inner : t.isInner = true) :
    Unended (stack.opening column t) := by
  unfold Stack.opening
  split
  · exact unended_cons.2 ⟨inner, unended_nil⟩
  · exact unended_nil

theorem unended_ends (stack : Stack) (column : Nat) : Unended (stack.ends column) := by
  intro t member
  obtain ⟨_, -, rfl⟩ := List.mem_map.1 member
  rfl

theorem written_inner (w : Written) : w.token.isInner = true := by
  cases w <;> rfl

theorem unended_items (items : List Text) : Unended (Leaf.itemTokens items) := by
  induction items using Leaf.itemTokens.induct with
  | case1 => exact unended_nil
  | case2 s => simp [Leaf.itemTokens, Token.isInner]
  | case3 s rest some ih => simp [Leaf.itemTokens, Token.isInner, ih]

theorem unended_leaf (leaf : Option Leaf) : Unended (Line.leafTokens leaf) := by
  match leaf with
  | none => exact unended_nil
  | some (.scalar w) => simpa [Line.leafTokens, Leaf.tokens] using written_inner w
  | some (.list items) => simpa [Line.leafTokens, Leaf.tokens, Token.isInner] using unended_items items
  | some .emptyMapping => simp [Line.leafTokens, Leaf.tokens, Token.isInner]

theorem unended_line (stack : Stack) (l : Line) : Unended (l.tokens stack) := by
  have opened (t : Token) (inner : t.isInner = true) := unended_opening stack l.column t inner
  cases l with
  | item column w =>
    have first := opened .blockSequenceStart rfl
    have last := written_inner w
    simp_all [Line.tokens, Line.column, Token.isInner]
  | entry column dash key leaf =>
    have sequence := opened .blockSequenceStart rfl
    have mapping := opened .blockMappingStart rfl
    have value := unended_leaf leaf
    cases dash <;> simp_all [Line.tokens, Line.column, Key.token, Token.isInner]

-- Only single quotes can hold a mark.
theorem marked_written (w : Written) (marked : w.isUnmarked = false) :
    ∃ s, w = .single s ∧ meetsMark s = true := by
  cases w with
  | plain s => cases marked
  | double s => cases marked
  | single s => exact ⟨s, rfl, by simpa [Written.isUnmarked] using marked⟩

theorem marked_leaf (l : Leaf) (marked : l.isUnmarked = false) :
    ∃ s, l = .scalar (.single s) ∧ meetsMark s = true := by
  cases l with
  | scalar w =>
    obtain ⟨s, rfl, found⟩ := marked_written w marked
    exact ⟨s, rfl, found⟩
  | list items => cases marked
  | emptyMapping => cases marked

section Entry

variable {c : Cursor} {budget : Nat} {stack : Stack} {tokens : List Token} {quiet : List (Nat × Text)} {n : Nat}
  {body : Text} {k : Key} {leaf : Option Leaf} (opens : opensHere body = true)
  (remarks : ∀ p ∈ quiet, isRemark p.2 = true) (fits : k.Fits) (leafFits : ∀ l ∈ leaf, l.Fits)
  (inside : stack.top ≤ c.column) (enough : c.rest.length < budget)
  (rest : c.rest = k.text ++ ':' :: (Line.leafText leaf ++
    '\n' :: (quietText quiet ++ (List.replicate n ' ' ++ body))))

theorem leaf_text_gap (leaf : Option Leaf) (r : Text) : endsWord (Line.leafText leaf ++ '\n' :: r) = true := by
  cases leaf <;> rfl

theorem written_opens (w : Written) (fits : w.Fits) (r : Text) : opensHere (w.text ++ r) = true := by
  cases w with
  | plain s =>
    obtain ⟨x, t, rfl, gapless, other⟩ := plain_text_first fits.1
    have bare : x ≠ ' ' ∧ isBreak x = false := by
      simp only [isGap, isTabOrSpace, Bool.or_eq_false_iff, beq_eq_false_iff_ne] at gapless
      exact ⟨gapless.1.1, gapless.2⟩
    simp [opensHere, Written.text, bare.1, bare.2, other]
  | double s => simp [Written.text, quote, opensHere, isBreak]
  | single s => simp [Written.text, singleQuote, opensHere, isBreak]

theorem leaf_opens (l : Leaf) (fits : l.Fits) (r : Text) : opensHere (l.text ++ r) = true := by
  cases l with
  | scalar w => exact written_opens w fits r
  | list items => simp [Leaf.text, quotedList, opensHere, isBreak]
  | emptyMapping => rfl

include fits rest

theorem after_key : (c.advance (k.text.length + 1)).rest = Line.leafText leaf ++
    '\n' :: (quietText quiet ++ (List.replicate n ' ' ++ body)) ∧
      c.column < (c.advance (k.text.length + 1)).column := by
  have left := advance_run_rest rest
  obtain ⟨-, right⟩ := advance_run_line rest (key_unbroken k fits)
  have moved := step_column (c.advance k.text.length) ':' _ left (by decide) (by decide)
  rw [advance_add]
  refine ⟨?_, ?_⟩
  · rw [advance_rest, left]
    rfl
  · change c.column < (c.advance k.text.length).step.column
    rw [moved]
    exact Nat.lt_succ_of_le right

include inside enough

-- An entry with a leaf, from its key to where the leaf begins.
theorem leads_to_leaf {l : Leaf} (held : leaf = some l) (lFits : l.Fits) (short : k.isShort = true) :
    ((c.advance (k.text.length + 1)).advance 1).rest =
        l.text ++ '\n' :: (quietText quiet ++ (List.replicate n ' ' ++ body)) ∧
      (stack.enter c.column).top < ((c.advance (k.text.length + 1)).advance 1).column ∧
      ((c.advance (k.text.length + 1)).advance 1).rest.length < budget ∧
      Leads (poised c budget stack tokens true) (poised ((c.advance (k.text.length + 1)).advance 1) budget
        (stack.enter c.column) (.value :: k.token :: .key ::
          ((stack.opening c.column .blockMappingStart).reverse ++ tokens)) false) := by
  obtain ⟨left, right⟩ := after_key fits rest
  subst held
  have spaced : (c.advance (k.text.length + 1)).rest = List.replicate 1 ' ' ++
      (l.text ++ '\n' :: (quietText quiet ++ (List.replicate n ' ' ++ body))) := left
  have inLine := advance_spaces_column 1 spaced
  have further := advance_run_rest spaced
  rw [List.length_replicate] at further
  refine ⟨further, ?_, ?_, leads_key fits rest rfl enough inside short
    (settle_spaces _ _ _ (leaf_opens l lFits _) 1 spaced (Nat.zero_lt_of_lt enough)) ?_⟩
  · rw [top_enter stack c.column inside]
    omega
  · rw [further]
    simp only [rest, Line.leafText, List.length_append, List.length_cons] at enough ⊢
    omega
  · change ((c.advance (k.text.length + 1)).advance 1).rest.length ≤ _
    rw [further]
    simp only [Line.leafText, List.length_append, List.length_cons]
    omega

include opens remarks leafFits

-- An entry, from its key to the end of its line.
theorem leads_entry (short : k.isShort = true) (unmarked : leaf.all (·.isUnmarked) = true)
    (flows : (∃ s, leaf = some (.scalar (.plain s))) → n ≤ c.column) :
    ∃ e, e.rest = body ∧ e.column = n ∧ Leads (poised c budget stack tokens true)
      (poised e budget (stack.enter c.column) ((stack.opening c.column .blockMappingStart ++
        [.key, k.token, .value] ++ Line.leafTokens leaf).reverse ++ tokens) true) := by
  obtain ⟨left, right⟩ := after_key fits rest
  cases leaf with
  | none =>
    have fuel : (c.advance (k.text.length + 1)).rest.length < budget := by
      rw [left]
      rw [rest, List.length_append, List.length_cons] at enough
      omega
    have feed : (c.advance (k.text.length + 1)).rest =
        '\n' :: (quietText quiet ++ (List.replicate n ' ' ++ body)) := left
    obtain ⟨e, settles, whole, column, -⟩ := settles_feed opens quiet remarks n _ feed
    refine ⟨e, whole, column, leads_key fits rest rfl enough inside short ?_ ?_⟩
    · rw [skip_to_token_feed budget settles feed fuel rfl, drop_stale_none _ rfl]
      simp [Line.leafTokens, poised]
    · change e.rest.length ≤ _
      rw [whole]
      simp only [Line.leafText, List.length_append, List.length_cons]
      omega
  | some l =>
    have lFits := leafFits l rfl
    have top := top_enter stack c.column inside
    obtain ⟨further, deeper, shorter, leads⟩ := leads_to_leaf fits inside enough rest rfl lFits short
    have ends : (∃ s, l = .scalar (.plain s)) → n ≤ (stack.enter c.column).top := by
      rintro ⟨s, rfl⟩
      rw [top]
      exact_mod_cast flows ⟨s, rfl⟩
    obtain ⟨e, whole, column, value⟩ := @leads_leaf _ budget _ (.value :: k.token :: .key ::
      ((stack.opening c.column .blockMappingStart).reverse ++ tokens)) quiet n body opens remarks deeper shorter l
      lFits (by simpa using unmarked) (by omega) ends further
    exact ⟨e, whole, column, leads.trans (by simpa [Line.leafTokens] using value)⟩

omit opens remarks in
-- A key that is too long, or a mark in single quotes, breaks an entry off.
theorem breaks_entry (unread : (k.isShort && leaf.all (·.isUnmarked)) = false) :
    Breaks (poised c budget stack tokens true) := by
  by_cases short : k.isShort = true
  · rw [short, Bool.true_and] at unread
    obtain ⟨s, rfl, marked⟩ : ∃ s, leaf = some (.scalar (.single s)) ∧ meetsMark s = true := by
      cases leaf with
      | none => cases unread
      | some l =>
        obtain ⟨s, rfl, found⟩ := marked_leaf l unread
        exact ⟨s, rfl, found⟩
    obtain ⟨further, deeper, shorter, leads⟩ := leads_to_leaf (l := .scalar (.single s)) fits inside enough rest rfl
      trivial short
    refine breaks_of_leads leads (breaks_marked s marked deeper shorter further) fun none => ?_
    have opened := unended_opening stack c.column .blockMappingStart rfl
    simpa [poised, Key.token, Token.isInner] using ⟨opened, none⟩
  · exact breaks_long_key fits rest (leaf_text_gap leaf _) enough inside (by simpa using short)

end Entry
section Line

variable {c : Cursor} {budget : Nat} {stack : Stack} {tokens : List Token}

theorem key_opens (k : Key) (fits : k.Fits) (r : Text) : opensHere (k.text ++ ':' :: r) = true := by
  obtain ⟨name, bare⟩ := k
  cases bare with
  | true =>
    have words : PlainText name := .word (identifier_plain_word name (fits rfl))
    obtain ⟨x, t, rfl, gapless, other⟩ := plain_text_first words
    have free : x ≠ ' ' ∧ isBreak x = false := by
      simp only [isGap, isTabOrSpace, Bool.or_eq_false_iff, beq_eq_false_iff_ne] at gapless
      exact ⟨gapless.1.1, gapless.2⟩
    simp [opensHere, Key.text, free.1, free.2, other]
  | false => simp [Key.text, quote, opensHere, isBreak]

theorem after_dash {r : Text} (rest : c.rest = '-' :: ' ' :: r) (enough : c.rest.length < budget) :
    (c.advance 2).rest = r ∧ (c.advance 2).column = c.column + 2 ∧ (c.advance 2).rest.length < budget := by
  have left : c.step.rest = ' ' :: r := by
    rw [step_rest, rest]
    rfl
  have first := step_column c '-' _ rest (by decide) (by decide)
  have second := step_column c.step ' ' _ left (by decide) (by decide)
  have whole : (c.advance 2).rest = r := by
    rw [advance_rest, rest]
    rfl
  refine ⟨whole, ?_, ?_⟩
  · change c.step.step.column = c.column + 2
    rw [second, first]
  · rw [whole]
    rw [rest, List.length_cons, List.length_cons] at enough
    omega

-- A dash closes what is deeper and begins an item.
theorem leads_item_mark {r : Text} (rest : c.rest = '-' :: ' ' :: r) (opens : opensHere r = true)
    (positive : 0 < budget) : Leads (poised c budget stack tokens true)
      (poised (c.advance 2) budget ((stack.closeTo c.column).enter c.column)
        (.blockEntry :: (((stack.closeTo c.column).opening c.column .blockSequenceStart).reverse ++
          ((stack.ends c.column).reverse ++ tokens))) true) :=
  leads_close.trans (leads_dash rest opens (top_close_to c.column) positive)

variable {quiet : List (Nat × Text)} {n : Nat} {body : Text}

section Forms

variable (opens : opensHere body = true) (remarks : ∀ p ∈ quiet, isRemark p.2 = true)
  (enough : c.rest.length < budget)

include opens remarks enough

theorem leads_word_line (w : Written) (fits : w.Fits) (unmarked : w.isUnmarked = true)
    (rest : c.rest = '-' :: ' ' :: (w.text ++ '\n' :: (quietText quiet ++ (List.replicate n ' ' ++ body))))
    (flows : (∃ s, w = .plain s) → n ≤ c.column) :
    ∃ e, e.rest = body ∧ e.column = n ∧ Leads (poised c budget stack tokens true)
      (poised e budget ((stack.closeTo c.column).enter c.column) ((stack.ends c.column ++
        (Line.item c.column w).tokens (stack.closeTo c.column)).reverse ++ tokens) true) := by
  have top := top_enter (stack.closeTo c.column) c.column (top_close_to c.column)
  obtain ⟨left, right, fuel⟩ := after_dash rest enough
  have ends : (∃ s, w = .plain s) → n ≤ ((stack.closeTo c.column).enter c.column).top := by
    intro plain
    rw [top]
    exact_mod_cast flows plain
  obtain ⟨e, whole, place, value⟩ := leads_written opens remarks (by rw [top]; omega) fuel w fits
    unmarked (by omega) ends true left
  have positive := Nat.zero_lt_of_lt enough
  refine ⟨e, whole, place, (leads_item_mark rest (written_opens w fits _) positive).trans ?_⟩
  simpa [Line.tokens, Line.column] using value

variable (key : Key) (leaf : Option Leaf) (fits : (Line.entry c.column false key leaf).Fits)
  (short : key.isShort = true) (unmarked : leaf.all (·.isUnmarked) = true)

include fits short unmarked

theorem leads_bare_entry (rest : c.rest = key.text ++ ':' :: (Line.leafText leaf ++
      '\n' :: (quietText quiet ++ (List.replicate n ' ' ++ body))))
    (flows : (∃ s, leaf = some (.scalar (.plain s))) → n ≤ c.column) :
    ∃ e, e.rest = body ∧ e.column = n ∧ Leads (poised c budget stack tokens true)
      (poised e budget ((stack.closeTo c.column).enter c.column) ((stack.ends c.column ++
        (Line.entry c.column false key leaf).tokens (stack.closeTo c.column)).reverse ++ tokens) true) := by
  obtain ⟨e, whole, place, value⟩ := leads_entry opens remarks fits.1 fits.2 (top_close_to c.column) enough rest
    short unmarked flows
  refine ⟨e, whole, place, leads_close.trans ?_⟩
  simpa [Line.tokens, Line.column] using value

-- After a dash an entry begins a mapping of its own, two columns deeper.
theorem leads_dashed_entry (rest : c.rest = '-' :: ' ' :: (key.text ++ ':' :: (Line.leafText leaf ++
      '\n' :: (quietText quiet ++ (List.replicate n ' ' ++ body)))))
    (flows : (∃ s, leaf = some (.scalar (.plain s))) → n ≤ c.column + 2) :
    ∃ e, e.rest = body ∧ e.column = n ∧ Leads (poised c budget stack tokens true)
      (poised e budget ((c.column + 2) :: (stack.closeTo c.column).enter c.column) ((stack.ends c.column ++
        (Line.entry c.column true key leaf).tokens (stack.closeTo c.column)).reverse ++ tokens) true) := by
  have top := top_enter (stack.closeTo c.column) c.column (top_close_to c.column)
  obtain ⟨left, right, fuel⟩ := after_dash rest enough
  have deeper : ((stack.closeTo c.column).enter c.column).top < ((c.column + 2 : Nat) : Int) := by
    rw [top]
    omega
  have within : ((stack.closeTo c.column).enter c.column).top ≤ (c.advance 2).column := by
    rw [right]
    exact Int.le_of_lt deeper
  obtain ⟨e, whole, place, value⟩ := leads_entry opens remarks fits.1 fits.2 within fuel left short
    unmarked (by rwa [right])
  have positive := Nat.zero_lt_of_lt enough
  refine ⟨e, whole, place, (leads_item_mark rest (key_opens key fits.1 _) positive).trans ?_⟩
  have entered : ((stack.closeTo c.column).enter c.column).enter (c.column + 2) =
      (c.column + 2) :: (stack.closeTo c.column).enter c.column := if_pos deeper
  have opened : ((stack.closeTo c.column).enter c.column).opening (c.column + 2) .blockMappingStart =
      [.blockMappingStart] := if_pos deeper
  rw [right, entered, opened] at value
  simpa [Line.tokens, Line.column] using value

end Forms

variable (l : Line) (fits : l.Fits) (column : c.column = l.column) (enough : c.rest.length < budget)
  (rest : c.rest = l.content ++ '\n' :: (quietText quiet ++ (List.replicate n ' ' ++ body)))

include fits column enough rest

theorem leads_line (opens : opensHere body = true) (remarks : ∀ p ∈ quiet, isRemark p.2 = true)
    (readable : l.isReadable = true) (flows : l.endsPlain = true → n ≤ l.inner) :
    ∃ e, e.rest = body ∧ e.column = n ∧ Leads (poised c budget stack tokens true)
      (poised e budget (l.after (stack.closeTo l.column))
        ((stack.ends l.column ++ l.tokens (stack.closeTo l.column)).reverse ++ tokens) true) := by
  cases l with
  | item place w =>
    obtain rfl : c.column = place := column
    refine leads_word_line opens remarks enough w fits readable (by simpa [Line.content] using rest) ?_
    rintro ⟨s, rfl⟩
    exact flows rfl
  | entry place dash key leaf =>
    obtain rfl : c.column = place := column
    obtain ⟨short, unmarked⟩ : key.isShort = true ∧ leaf.all (·.isUnmarked) = true := by
      simpa [Line.isReadable] using readable
    cases dash with
    | false =>
      refine leads_bare_entry opens remarks enough key leaf fits short unmarked
        (by simpa [Line.content, Line.dashText] using rest) ?_
      rintro ⟨s, rfl⟩
      exact flows rfl
    | true =>
      refine leads_dashed_entry opens remarks enough key leaf fits short unmarked
        (by simpa [Line.content, Line.dashText] using rest) ?_
      rintro ⟨s, rfl⟩
      exact flows rfl

-- A line that cannot be read breaks the scan off.
theorem breaks_line (unread : l.isReadable = false) : Breaks (poised c budget stack tokens true) := by
  have positive := Nat.zero_lt_of_lt enough
  have inside : (stack.closeTo c.column).top ≤ c.column := top_close_to c.column
  have top := top_enter (stack.closeTo c.column) c.column inside
  have ended (column : Nat) (none : Unended tokens) : Unended ((stack.ends column).reverse ++ tokens) :=
    unended_append.2 ⟨unended_reverse.2 (unended_ends stack column), none⟩
  have begun (none : Unended tokens) : Unended (Token.blockEntry ::
      (((stack.closeTo c.column).opening c.column .blockSequenceStart).reverse ++
        ((stack.ends c.column).reverse ++ tokens))) := by
    have opened := unended_opening (stack.closeTo c.column) c.column .blockSequenceStart rfl
    exact unended_cons.2 ⟨rfl, unended_append.2 ⟨unended_reverse.2 opened, ended c.column none⟩⟩
  cases l with
  | item place w =>
    obtain rfl : c.column = place := column
    obtain ⟨s, rfl, marked⟩ := marked_written w unread
    have dashed : c.rest = '-' :: ' ' :: (singleQuote s ++
        '\n' :: (quietText quiet ++ (List.replicate n ' ' ++ body))) := by
      simpa [Line.content, Written.text] using rest
    obtain ⟨left, right, fuel⟩ := after_dash dashed enough
    exact breaks_of_leads (leads_item_mark dashed (written_opens (.single s) trivial _) positive)
      (breaks_marked s marked (by rw [top]; omega) fuel left) begun
  | entry place dash key leaf =>
    obtain rfl : c.column = place := column
    have unread : (key.isShort && leaf.all (·.isUnmarked)) = false := unread
    cases dash with
    | false =>
      have entry : c.rest = key.text ++ ':' :: (Line.leafText leaf ++
          '\n' :: (quietText quiet ++ (List.replicate n ' ' ++ body))) := by
        simpa [Line.content, Line.dashText] using rest
      exact breaks_of_leads leads_close (breaks_entry fits.1 fits.2 inside enough entry unread) (ended c.column)
    | true =>
      have dashed : c.rest = '-' :: ' ' :: (key.text ++ ':' :: (Line.leafText leaf ++
          '\n' :: (quietText quiet ++ (List.replicate n ' ' ++ body)))) := by
        simpa [Line.content, Line.dashText] using rest
      obtain ⟨left, right, fuel⟩ := after_dash dashed enough
      have within : ((stack.closeTo c.column).enter c.column).top ≤ (c.advance 2).column := by
        rw [top, right]
        omega
      exact breaks_of_leads (leads_item_mark dashed (key_opens key fits.1 _) positive)
        (breaks_entry fits.1 fits.2 within fuel left unread) begun

end Line
end Scan

/-- Lines of a text, each with the comments and empty lines after it. -/
abbrev Paragraphs := List (Line × List (Nat × Text))

namespace Paragraphs

def column : Paragraphs → Nat
  | [] => 0
  | (l, _) :: _ => l.column

/-- The text without the spaces before its first line. -/
def body : Paragraphs → Text
  | [] => []
  | (l, quiet) :: rest => l.content ++
      '\n' :: (quietText quiet ++ (List.replicate (column rest) ' ' ++ body rest))

def lines (ps : Paragraphs) : List Line := ps.map (·.1)

variable {l : Line} {quiet : List (Nat × Text)} {ps : Paragraphs}

theorem flows_next (flows : Flows (lines ((l, quiet) :: ps))) :
    (l.endsPlain = true → column ps ≤ l.inner) ∧ Flows (lines ps) := by
  cases ps with
  | nil => exact ⟨fun _ => Nat.zero_le _, trivial⟩
  | cons q ps => exact flows

theorem body_shorter : (body ps).length < (body ((l, quiet) :: ps)).length := by
  simp only [body, List.length_append, List.length_cons]
  omega

end Paragraphs

section Paragraphs

open Paragraphs Scan

variable {ps : Paragraphs} (fits : ∀ l ∈ ps.lines, l.Fits)

include fits

theorem body_opens : opensHere ps.body = true := by
  cases ps with
  | nil => rfl
  | cons p rest =>
    obtain ⟨l, quiet⟩ := p
    have fit := fits l List.mem_cons_self
    cases l with
    | item place w => simp [Paragraphs.body, Line.content, opensHere, isBreak]
    | entry place dash key leaf =>
      cases dash with
      | true => simp [Paragraphs.body, Line.content, Line.dashText, opensHere, isBreak]
      | false =>
        have opens := key_opens key fit.1 (Line.leafText leaf ++
          '\n' :: (quietText quiet ++ (List.replicate (column rest) ' ' ++ body rest)))
        simpa [Paragraphs.body, Line.content, Line.dashText] using opens

variable (remarks : ∀ p ∈ ps, ∀ q ∈ p.2, isRemark q.2 = true)

include remarks

-- A scan before a line goes on over all lines from there on.
theorem proceed_lines {c : Cursor} {budget : Nat} {stack : Stack} {tokens : List Token} (fuel : Nat)
    (flows : Flows ps.lines) (readable : ps.lines.all (·.isReadable) = true) (rest : c.rest = ps.body)
    (column : c.column = ps.column) (enough : c.rest.length < budget) (fuelled : c.rest.length < fuel) :
    (poised c budget stack tokens true).proceed fuel =
      (Token.streamEnd :: ((spell stack ps.lines).reverse ++ tokens)).reverse := by
  induction ps generalizing c stack tokens fuel with
  | nil => exact proceed_end fuel rest
  | cons p ps ih =>
    obtain ⟨l, quiet⟩ := p
    obtain ⟨fit, others⟩ := List.forall_mem_cons.1 fits
    obtain ⟨here, later⟩ := List.forall_mem_cons.1 remarks
    obtain ⟨reads, further⟩ : l.isReadable = true ∧ (Paragraphs.lines ps).all (·.isReadable) = true := by
      simpa [Paragraphs.lines] using readable
    have next := flows_next flows
    obtain ⟨e, bodyLeft, place, leads⟩ :=
      leads_line l fit column enough rest (body_opens others) here reads next.1
    obtain ⟨left, remaining, same⟩ := leads fuel fuelled
    have shorter : e.rest.length < budget := by
      rw [bodyLeft]
      exact Nat.lt_trans body_shorter (rest ▸ enough)
    rw [same, ih others later left next.2 further bodyLeft place shorter remaining]
    simp [Paragraphs.lines, spell]

-- A line that cannot be read breaks off the scan of all lines before it.
theorem breaks_lines {c : Cursor} {budget : Nat} {stack : Stack} {tokens : List Token} (flows : Flows ps.lines)
    (unread : ps.lines.all (·.isReadable) = false) (rest : c.rest = ps.body) (column : c.column = ps.column)
    (enough : c.rest.length < budget) : Breaks (poised c budget stack tokens true) := by
  induction ps generalizing c stack tokens with
  | nil => cases unread
  | cons p ps ih =>
    obtain ⟨l, quiet⟩ := p
    obtain ⟨fit, others⟩ := List.forall_mem_cons.1 fits
    obtain ⟨here, later⟩ := List.forall_mem_cons.1 remarks
    cases reads : l.isReadable with
    | false => exact breaks_line l fit column enough rest reads
    | true =>
      have further : (Paragraphs.lines ps).all (·.isReadable) = false := by
        simpa [Paragraphs.lines, reads] using unread
      have next := flows_next flows
      obtain ⟨e, bodyLeft, place, leads⟩ :=
        leads_line l fit column enough rest (body_opens others) here reads next.1
      have shorter : e.rest.length < budget := by
        rw [bodyLeft]
        exact Nat.lt_trans body_shorter (rest ▸ enough)
      refine breaks_of_leads leads (ih others later next.2 further bodyLeft place shorter) fun none => ?_
      have spelled := unended_line (stack.closeTo l.column) l
      have ended := unended_ends stack l.column
      exact unended_append.2 ⟨unended_reverse.2 (unended_append.2 ⟨ended, spelled⟩), none⟩

variable (quiet : List (Nat × Text)) (before : ∀ q ∈ quiet, isRemark q.2 = true) {text : Text}
  (shown : text = quietText quiet ++ (List.replicate ps.column ' ' ++ ps.body))
  (markless : text.head? ≠ some '\ufeff') (flows : Flows ps.lines)

include before shown markless flows

omit remarks flows in
theorem tokens_begin : ∃ c, c.rest = ps.body ∧ c.column = ps.column ∧ c.rest.length ≤ text.length ∧
    tokens text = (poised c (text.length + 2) [] [] true).proceed (text.length + 1) := by
  obtain ⟨e, settles, whole, column, -⟩ := settles_quiet (body_opens fits) quiet before ps.column
    { rest := text } rfl shown
  refine ⟨e, whole, column, ?_, ?_⟩
  · rw [whole, shown]
    simp only [List.length_append]
    omega
  · have skipped := skip_to_token_settles (s := { cursor := { rest := text }, budget := text.length + 2 })
      (text.length + 2) settles (by simp) rfl
    unfold Yaml.tokens
    dsimp only
    rw [if_neg (by simpa using markless)]
    exact run_succ _ _ _ ((congrArg dropStaleKeys skipped).trans (drop_stale_none _ rfl))

-- The tokens of a text whose lines can all be read.
theorem tokens_of_lines (readable : ps.lines.all (·.isReadable) = true) :
    tokens text = spell [] ps.lines ++ [.streamEnd] := by
  obtain ⟨c, rest, column, within, same⟩ := tokens_begin fits quiet before shown markless
  rw [same, proceed_lines fits remarks _ flows readable rest column (by omega) (by omega)]
  simp

-- A text with a line that cannot be read has no last token.
theorem tokens_unended (unread : ps.lines.all (·.isReadable) = false) : Unended (tokens text) := by
  obtain ⟨c, rest, column, within, same⟩ := tokens_begin fits quiet before shown markless
  rw [same]
  exact breaks_lines fits remarks flows unread rest column (by omega) _ (by change c.rest.length < _; omega)
    unended_nil

end Paragraphs
end PipelineMigration.Yaml
