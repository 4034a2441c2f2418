import PipelineMigration.Proofs.Yaml.Scan
set_option autoImplicit false

/- Values in brackets on the line of their key: lists of scalars in double quotes, and the empty mapping. -/
namespace PipelineMigration.Yaml

open Cursor

namespace Scan

/-- A scan inside one pair of brackets. -/
def bracketed (c : Cursor) (budget : Nat) (stack : Stack) (tokens : List Token) (allowKey : Bool)
    (keys : List PossibleKey) : Scan :=
  { poised c budget stack tokens allowKey with depth := 1, possibleKeys := keys }

/-- Possible keys inside one pair of brackets, none of which has to become a key. -/
def Loose (keys : List PossibleKey) : Prop := ∀ k ∈ keys, k.depth = 1 ∧ k.required = false

section Bracketed

variable {c : Cursor} {budget : Nat} {stack : Stack} {tokens : List Token} {allowKey : Bool}
  {keys : List PossibleKey} (loose : Loose keys)

include loose

theorem drop_key_bracketed : (bracketed c budget stack tokens allowKey keys).dropKey =
    .ok (bracketed c budget stack tokens allowKey []) := by
  have free : keys.any (fun k => k.depth == 1 && k.required) = false := by
    rw [List.any_eq_false]
    intro k member
    simp [(loose k member).2]
  have gone : keys.filter (fun k => k.depth != 1) = [] := by
    rw [List.filter_eq_nil_iff]
    intro k member
    simp [(loose k member).1]
  have unfolded : (bracketed c budget stack tokens allowKey keys).dropKey =
      if keys.any (fun k => k.depth == 1 && k.required) then .error .malformed
      else .ok (bracketed c budget stack tokens allowKey (keys.filter fun k => k.depth != 1)) := rfl
  rw [unfolded, free, gone]
  rfl

theorem drop_stale_bracketed : ∃ kept, Loose kept ∧
    (bracketed c budget stack tokens allowKey keys).dropStaleKeys =
      .ok (bracketed c budget stack tokens allowKey kept) := by
  have free : keys.any (fun k => isStale c k && k.required) = false := by
    rw [List.any_eq_false]
    intro k member
    simp [(loose k member).2]
  refine ⟨keys.filter fun k => !isStale c k, fun k member => loose k (List.mem_filter.1 member).1, ?_⟩
  have unfolded : (bracketed c budget stack tokens allowKey keys).dropStaleKeys =
      if keys.any (fun k => isStale c k && k.required) then .error .malformed
      else .ok (bracketed c budget stack tokens allowKey (keys.filter fun k => !isStale c k)) := rfl
  rw [unfolded, free]
  rfl

theorem settle_bracketed {body : Text} (opens : opensHere body = true) (n : Nat)
    (rest : c.rest = List.replicate n ' ' ++ body) (positive : 0 < budget) : ∃ kept, Loose kept ∧
      ((bracketed c budget stack tokens allowKey keys).skipToToken budget).dropStaleKeys =
        .ok (bracketed (c.advance n) budget stack tokens allowKey kept) := by
  have skipped : (bracketed c budget stack tokens allowKey keys).skipToToken budget =
      bracketed (c.advance n) budget stack tokens allowKey keys :=
    skip_to_token_opens opens n budget positive rest
  rw [skipped]
  exact drop_stale_bracketed loose

end Bracketed

section Marks

variable {c : Cursor} {budget : Nat} {stack : Stack} {tokens : List Token} {keys : List PossibleKey}

theorem close_bracketed (allowKey : Bool) : (bracketed c budget stack tokens allowKey keys).close
    (bracketed c budget stack tokens allowKey keys).cursor.column =
      bracketed c budget stack tokens allowKey keys :=
  close_in_brackets _ _ rfl

theorem word_bracketed (stack : Stack) (tokens : List Token) (loose : Loose keys) (s : Text) {after : Text}
    (rest : c.rest = quote s ++ after) (enough : c.rest.length < budget) : ∃ k, Loose [k] ∧
      (bracketed c budget stack tokens true keys).word doubleWord = .ok
        (bracketed (c.advance (quote s).length) budget stack (.scalar s false :: tokens) false [k]) := by
  have noted : (bracketed c budget stack tokens true keys).noteKey =
      .ok (bracketed c budget stack tokens true [⟨1, tokens.length, c.index, c.line, c.column, false⟩]) := by
    unfold noteKey
    rw [drop_key_bracketed loose]
    rfl
  refine ⟨⟨1, tokens.length, c.index, c.line, c.column, false⟩, by simp [Loose], ?_⟩
  unfold word
  rw [noted]
  change (doubleWord budget c).bind _ = _
  rw [double_word_reads s rest enough]
  rfl

theorem token_comma (s : Scan) (r : Text) : s.token ',' r = s.flowComma := by
  unfold token
  simp [beginsMark, Text.startsWith, List.isPrefixOf]

theorem token_open (s : Scan) (r : Text) : s.token '[' r = s.openFlow .flowSequenceStart := by
  unfold token
  simp [beginsMark, Text.startsWith, List.isPrefixOf]

theorem token_close (s : Scan) (r : Text) : s.token ']' r = s.closeFlow .flowSequenceEnd := by
  unfold token
  simp [beginsMark, Text.startsWith, List.isPrefixOf]

theorem token_open_mapping (s : Scan) (r : Text) : s.token '\x7b' r = s.openFlow .flowMappingStart := by
  unfold token
  simp [beginsMark, Text.startsWith, List.isPrefixOf]

theorem token_close_mapping (s : Scan) (r : Text) : s.token '\x7d' r = s.closeFlow .flowMappingEnd := by
  unfold token
  simp [beginsMark, Text.startsWith, List.isPrefixOf]

theorem comma_bracketed (loose : Loose keys) : (bracketed c budget stack tokens false keys).flowComma =
    .ok (bracketed c.step budget stack (.flowEntry :: tokens) true []) := by
  have permitted : (bracketed c budget stack tokens false keys).permitKey =
      bracketed c budget stack tokens true keys := rfl
  unfold flowComma
  rw [permitted, drop_key_bracketed loose]
  rfl

theorem close_flow_bracketed (loose : Loose keys) (allowKey : Bool) (t : Token) :
    (bracketed c budget stack tokens allowKey keys).closeFlow t =
      .ok (poised c.step budget stack (t :: tokens) false) := by
  unfold closeFlow
  rw [drop_key_bracketed loose]
  rfl

-- Without a possible key in sight a bracket only opens.
theorem open_flow_poised (t : Token) : (poised c budget stack tokens false).openFlow t =
    .ok (bracketed c.step budget stack (t :: tokens) true []) := rfl

-- A token inside the brackets and the spaces after it.
theorem leads_bracketed {d : Cursor} {later : List Token} {allowKey permits : Bool} {held : List PossibleKey}
    {x : Char} {r body : Text} (rest : c.rest = x :: r)
    (read : (bracketed c budget stack tokens allowKey keys).token x r =
      .ok (bracketed d budget stack later permits held))
    (loose : Loose held) (n : Nat) (left : d.rest = List.replicate n ' ' ++ body) (opens : opensHere body = true)
    (shorter : body.length ≤ r.length) (positive : 0 < budget) : ∃ e kept, e.rest = body ∧ Loose kept ∧
      Leads (bracketed c budget stack tokens allowKey keys) (bracketed e budget stack later permits kept) := by
  have further := advance_run_rest left
  rw [List.length_replicate] at further
  obtain ⟨kept, still, settled⟩ := settle_bracketed loose opens n left positive
  refine ⟨d.advance n, kept, further, still, leads_of_token rest (close_bracketed allowKey) read settled ?_⟩
  change (d.advance n).rest.length < c.rest.length
  rw [further, rest, List.length_cons]
  omega

theorem quote_first (s after : Text) : quote s ++ after = '"' :: (s.flatMap quoteChar ++ '"' :: after) := by
  simp [quote]

theorem join_first (separator x : Text) (more : List Text) :
    ∃ tail, Text.join separator (x :: more) = x ++ tail := by
  cases more with
  | nil => exact ⟨[], by simp [Text.join, List.intercalate]⟩
  | cons y more => exact ⟨separator ++ separator.intercalate (y :: more), by simp [Text.join, List.intercalate]⟩

theorem leads_item (s : Text) {body : Text} (loose : Loose keys) (rest : c.rest = quote s ++ body)
    (opens : opensHere body = true) (enough : c.rest.length < budget) : ∃ e kept, e.rest = body ∧ Loose kept ∧
      Leads (bracketed c budget stack tokens true keys)
        (bracketed e budget stack (.scalar s false :: tokens) false kept) := by
  obtain ⟨k, single, read⟩ := word_bracketed stack tokens loose s rest enough
  refine leads_bracketed (rest.trans (quote_first s body)) ((token_double _ _).trans read) single 0
    (advance_run_rest rest) opens ?_ (Nat.zero_lt_of_lt enough)
  simp only [List.length_append, List.length_cons]
  omega

-- Items up to the closing bracket.
theorem leads_items (items : List Text) (some : items ≠ []) (loose : Loose keys) {r : Text}
    (rest : c.rest = Text.join ", " (items.map quote) ++ ']' :: r) (enough : c.rest.length < budget) :
    ∃ d kept, d.rest = ']' :: r ∧ Loose kept ∧ Leads (bracketed c budget stack tokens true keys)
      (bracketed d budget stack ((Leaf.itemTokens items).reverse ++ tokens) false kept) := by
  induction items generalizing c tokens keys with
  | nil => exact absurd rfl some
  | cons s more ih =>
    cases more with
    | nil => exact leads_item s loose (by simpa [Text.join, List.intercalate] using rest) rfl enough
    | cons t more =>
      have whole : c.rest = quote s ++ ',' :: ' ' :: (Text.join ", " ((t :: more).map quote) ++ ']' :: r) := by
        rw [rest]
        simp [Text.join, List.intercalate]
      obtain ⟨tail, joined⟩ := join_first ", ".toList (quote t) (more.map quote)
      have opens : opensHere (Text.join ", " ((t :: more).map quote) ++ ']' :: r) = true := by
        rw [List.map_cons, joined, List.append_assoc, quote_first]
        rfl
      obtain ⟨d, between, left, still, first⟩ := leads_item s loose whole rfl enough
      have gap : d.step.rest = List.replicate 1 ' ' ++ (Text.join ", " ((t :: more).map quote) ++ ']' :: r) := by
        rw [step_rest, left]
        rfl
      obtain ⟨e, held, next, free, second⟩ := leads_bracketed left
        ((token_comma _ _).trans (comma_bracketed still)) (fun _ none => nomatch none) 1 gap opens
        (by rw [List.length_cons]; omega) (Nat.zero_lt_of_lt enough)
      have fuel : e.rest.length < budget := by
        rw [next]
        rw [whole, List.length_append, List.length_cons, List.length_cons] at enough
        omega
      obtain ⟨f, last, closes, final, third⟩ := ih (by simp) free next fuel
      refine ⟨f, last, closes, final, (first.trans second).trans ?_⟩
      simpa [Leaf.itemTokens] using third

-- The closing bracket at the end of its line.
theorem leads_close_bracket {quiet : List (Nat × Text)} {n : Nat} {body : Text} (opens : opensHere body = true)
    (remarks : ∀ p ∈ quiet, isRemark p.2 = true) {allowKey : Bool} (loose : Loose keys) {x : Char} (t : Token)
    (rest : c.rest = x :: '\n' :: (quietText quiet ++ (List.replicate n ' ' ++ body)))
    (read : ∀ (s : Scan) (r : Text), s.token x r = s.closeFlow t) (enough : c.rest.length < budget) :
    ∃ e, e.rest = body ∧ e.column = n ∧ Leads (bracketed c budget stack tokens allowKey keys)
      (poised e budget stack (t :: tokens) true) := by
  have left : c.step.rest = '\n' :: (quietText quiet ++ (List.replicate n ' ' ++ body)) := by
    rw [step_rest, rest]
    rfl
  obtain ⟨e, settles, whole, column, -⟩ := settles_feed opens quiet remarks n _ left
  have fuel : c.step.rest.length < budget := by
    rw [step_rest, List.length_drop]
    omega
  have settled : ((poised c.step budget stack (t :: tokens) false).skipToToken budget).dropStaleKeys =
      .ok (poised e budget stack (t :: tokens) true) := by
    have skipped : (poised c.step budget stack (t :: tokens) false).skipToToken budget =
        poised e budget stack (t :: tokens) true := skip_to_token_feed budget settles left fuel rfl
    rw [skipped]
    exact drop_stale_none _ rfl
  refine ⟨e, whole, column, leads_of_token rest (close_bracketed allowKey)
    ((read _ _).trans (close_flow_bracketed loose allowKey t)) settled ?_⟩
  change e.rest.length < c.rest.length
  rw [whole, rest]
  simp only [List.length_append, List.length_cons]
  omega

-- A bracket opens and what stands after it in the line goes on inside.
theorem leads_open_bracket (tokens : List Token) (inside : stack.top < c.column) (enough : c.rest.length < budget)
    {x : Char} {r : Text} (t : Token) (rest : c.rest = x :: r) (opens : opensHere r = true)
    (read : ∀ (s : Scan) (r : Text), s.token x r = s.openFlow t) : ∃ e kept, e.rest = r ∧ Loose kept ∧
      Leads (poised c budget stack tokens false) (bracketed e budget stack (t :: tokens) true kept) := by
  have left : c.step.rest = r := by
    rw [step_rest, rest]
    rfl
  have free : Loose [] := fun _ none => nomatch none
  obtain ⟨kept, still, settled⟩ := @settle_bracketed c.step budget stack (t :: tokens) true [] free r opens 0 left
    (Nat.zero_lt_of_lt enough)
  refine ⟨c.step, kept, left, still, leads_of_token rest (close_of_le _ _ (Int.le_of_lt inside))
    ((read _ _).trans (open_flow_poised t)) settled ?_⟩
  change c.step.rest.length < c.rest.length
  rw [left, rest, List.length_cons]
  omega

section LineEnd

variable {quiet : List (Nat × Text)} {n : Nat} {body : Text} (opens : opensHere body = true)
  (remarks : ∀ p ∈ quiet, isRemark p.2 = true) (inside : stack.top < c.column) (enough : c.rest.length < budget)

include opens remarks inside enough

theorem leads_list (items : List Text)
    (rest : c.rest = quotedList items ++ '\n' :: (quietText quiet ++ (List.replicate n ' ' ++ body))) :
    ∃ e, e.rest = body ∧ e.column = n ∧ Leads (poised c budget stack tokens false)
      (poised e budget stack ((Leaf.list items).tokens.reverse ++ tokens) true) := by
  have whole : c.rest = '[' :: (Text.join ", " (items.map quote) ++
      ']' :: '\n' :: (quietText quiet ++ (List.replicate n ' ' ++ body))) := by
    rw [rest]
    simp [quotedList]
  have fuel : (Text.join ", " (items.map quote) ++
      ']' :: '\n' :: (quietText quiet ++ (List.replicate n ' ' ++ body))).length < budget := by
    rw [whole, List.length_cons] at enough
    omega
  cases items with
  | nil =>
    obtain ⟨d, kept, left, loose, first⟩ := leads_open_bracket tokens inside enough .flowSequenceStart whole
      rfl token_open
    rw [← left] at fuel
    obtain ⟨e, bodyLeft, column, last⟩ := leads_close_bracket opens remarks loose .flowSequenceEnd left
      token_close fuel
    exact ⟨e, bodyLeft, column, first.trans last⟩
  | cons s more =>
    obtain ⟨tail, joined⟩ := join_first ", ".toList (quote s) (more.map quote)
    have begins : opensHere (Text.join ", " ((s :: more).map quote) ++
        ']' :: '\n' :: (quietText quiet ++ (List.replicate n ' ' ++ body))) = true := by
      rw [List.map_cons, joined, List.append_assoc, quote_first]
      rfl
    obtain ⟨d, kept, left, loose, first⟩ := leads_open_bracket tokens inside enough .flowSequenceStart whole
      begins token_open
    rw [← left] at fuel
    obtain ⟨f, held, closes, free, between⟩ := leads_items (s :: more) (by simp) loose left fuel
    have shorter : f.rest.length < budget := by
      rw [closes]
      rw [left, List.length_append] at fuel
      omega
    obtain ⟨e, bodyLeft, column, last⟩ := leads_close_bracket opens remarks free .flowSequenceEnd closes
      token_close shorter
    refine ⟨e, bodyLeft, column, ?_⟩
    simpa [Leaf.tokens] using (first.trans between).trans last

theorem leads_empty_mapping
    (rest : c.rest = "\x7b\x7d".toList ++ '\n' :: (quietText quiet ++ (List.replicate n ' ' ++ body))) :
    ∃ e, e.rest = body ∧ e.column = n ∧ Leads (poised c budget stack tokens false)
      (poised e budget stack (Leaf.emptyMapping.tokens.reverse ++ tokens) true) := by
  have whole : c.rest = '\x7b' :: '\x7d' :: '\n' :: (quietText quiet ++ (List.replicate n ' ' ++ body)) := rest
  obtain ⟨d, kept, left, loose, first⟩ := leads_open_bracket tokens inside enough .flowMappingStart whole
    rfl token_open_mapping
  have fuel : d.rest.length < budget := by
    rw [left]
    rw [whole, List.length_cons] at enough
    omega
  obtain ⟨e, bodyLeft, column, last⟩ := leads_close_bracket opens remarks loose .flowMappingEnd left
    token_close_mapping fuel
  exact ⟨e, bodyLeft, column, first.trans last⟩

-- A scalar to the end of its line.
theorem leads_written (w : Written) (fits : w.Fits) (unmarked : w.isUnmarked = true) (away : c.column ≠ 0)
    (flows : (∃ s, w = .plain s) → n ≤ stack.top) (allowKey : Bool)
    (rest : c.rest = w.text ++ '\n' :: (quietText quiet ++ (List.replicate n ' ' ++ body))) :
    ∃ e, e.rest = body ∧ e.column = n ∧ Leads (poised c budget stack tokens allowKey)
      (poised e budget stack (w.token :: tokens) true) := by
  cases w with
  | plain s => exact leads_plain opens remarks inside enough s fits.1 fits.2.1 away (flows ⟨s, rfl⟩) rest
  | double s => exact leads_double opens remarks inside enough s rest
  | single s =>
    have clear : meetsMark s = false := by simpa [Written.isUnmarked] using unmarked
    exact leads_single opens remarks inside enough s clear rest

-- What an entry has on its own line, to the end of the line.
theorem leads_leaf (l : Leaf) (fits : l.Fits) (unmarked : l.isUnmarked = true) (away : c.column ≠ 0)
    (flows : (∃ s, l = .scalar (.plain s)) → n ≤ stack.top)
    (rest : c.rest = l.text ++ '\n' :: (quietText quiet ++ (List.replicate n ' ' ++ body))) :
    ∃ e, e.rest = body ∧ e.column = n ∧ Leads (poised c budget stack tokens false)
      (poised e budget stack (l.tokens.reverse ++ tokens) true) := by
  cases l with
  | scalar w =>
    refine leads_written opens remarks inside enough w fits unmarked away (fun plain => flows ?_) false rest
    obtain ⟨s, rfl⟩ := plain
    exact ⟨s, rfl⟩
  | list items => exact leads_list opens remarks inside enough items rest
  | emptyMapping => exact leads_empty_mapping opens remarks inside enough rest

end LineEnd

end Marks
end Scan
end PipelineMigration.Yaml
