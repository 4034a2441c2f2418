import PipelineMigration.Proofs.Pattern.Taken
import PipelineMigration.Proofs.Text.Occurrence
import PipelineMigration.Credential.Reference
set_option autoImplicit false

/- What the scan for references finds. A reference in one of the shapes it knows is found at its place, unless it
   stands in the quotes of a reference before it. -/
namespace PipelineMigration

namespace CredentialReference

open Pattern

/-- A text that stands in quotes holds none. -/
def Unquoted (id : Text) : Prop := id ≠ [] ∧ ∀ c ∈ id, Text.isQuote c = false

theorem quoted_takes_iff {before : Option Char} {taken rest : Text} {k : Texts} :
    quotedId.Takes before taken rest k ↔ ∃ mark id close, Text.isQuote mark = true ∧ Unquoted id ∧
      Text.isQuote close = true ∧ taken = mark :: (id ++ [close]) ∧ k = [(1, id)] := by
  refine quoted_takes.trans ?_
  simp only [Nat.one_le_iff_ne_zero, ne_eq, List.length_eq_zero_iff, Bool.not_eq_true', Unquoted]

/-- How the scan is told a credential in a step that takes arguments. -/
def argumentName : Text := "credentialsId"

def lookupOpening : Text := "credentials("

theorem opening_letter : lookupOpening.head?.any Text.isWord = true := by decide

theorem lookup_eq : lookup = edge ++ exactly lookupOpening ++ blanks ++ quotedId ++ blanks ++ exactly [')'] := rfl

theorem lookup_taken {before : Option Char} {taken rest : Text} {k : Texts} (way : lookup.Takes before taken rest k) :
    ∃ gap mark id close after, (∀ c ∈ gap, Text.isBlank c = true) ∧ Text.isQuote mark = true ∧ Unquoted id ∧
      Text.isQuote close = true ∧ (∀ c ∈ after, Text.isBlank c = true) ∧ k = [(1, id)] ∧
      taken = lookupOpening ++ gap ++ mark :: (id ++ [close]) ++ after ++ [')'] := by
  rw [lookup_eq] at way
  obtain ⟨_, toClose, rfl⟩ := then_exactly.1 way
  obtain ⟨_, after, toAfter, blank', rfl⟩ := then_blanks.1 toClose
  obtain ⟨_, _, _, _, toQuoted, quoted, rfl, rfl⟩ := then_takes.1 toAfter
  obtain ⟨_, gap, toGap, blank, rfl⟩ := then_blanks.1 toQuoted
  obtain ⟨-, rfl, rfl⟩ := (edge_then opening_letter).1 toGap
  obtain ⟨mark, id, close, opens, plain, closes, rfl, rfl⟩ := quoted_takes_iff.1 quoted
  exact ⟨gap, mark, id, close, after, blank, opens, plain, closes, blank', rfl, rfl⟩

theorem lookup_takes {before : Option Char} {gap id after rest : Text} {mark close : Char}
    (starts : before.any Text.isWord = false) (blank : ∀ c ∈ gap, Text.isBlank c = true)
    (opens : Text.isQuote mark = true) (plain : Unquoted id) (closes : Text.isQuote close = true)
    (blank' : ∀ c ∈ after, Text.isBlank c = true) :
    lookup.Takes before (lookupOpening ++ gap ++ mark :: (id ++ [close]) ++ after ++ [')']) rest [(1, id)] := by
  rw [lookup_eq]
  refine then_exactly.2 ⟨_, then_blanks.2 ⟨_, after, then_takes.2 ⟨_, _, [], _, then_blanks.2 ⟨_, gap, ?_, blank, rfl⟩,
    quoted_takes_iff.2 ⟨mark, id, close, opens, plain, closes, rfl, rfl⟩, rfl, rfl⟩, blank', rfl⟩, rfl⟩
  exact (edge_then opening_letter).2 ⟨starts, rfl, rfl⟩

/-- A pattern finds a text for its first slot. -/
def Catches (a : Pattern) (s id : Text) : Prop := ∃ m ∈ a.allMatches s, (m.span? 1).isSome = true ∧ m.captured 1 = id

theorem Found.catches {a : Pattern} {s pre taken rest id : Text} {m : Match} (listed : m ∈ a.allMatches s)
    (found : a.Found s m pre taken rest [(1, id)]) : Catches a s id :=
  ⟨m, listed, by rw [found.caught]; rfl, found.captured 1⟩

def openingTail : Text := "redentials("

theorem opening_eq : lookupOpening = 'c' :: openingTail := by decide

theorem opening_single : 'c' ∉ openingTail := by decide

theorem quote_among {c mark : Char} (quote : Text.isQuote mark = true) (plain : Text.isQuote c = false) : c ≠ mark := by
  rintro rfl
  rw [quote] at plain
  cases plain

theorem blanks_unquoted {gap : Text} (blank : ∀ c ∈ gap, Text.isBlank c = true) : ∀ c ∈ gap, Text.isQuote c = false :=
  fun c member => Text.blank_no_quote (blank c member)

-- A lookup is found, unless it stands in the quotes of another one.
theorem lookup_caught {s pre gap id after w : Text} {mark close : Char}
    (whole : s = pre ++ ((lookupOpening ++ gap ++ mark :: (id ++ [close]) ++ after ++ [')']) ++ w))
    (starts : pre.getLast?.any Text.isWord = false) (blank : ∀ c ∈ gap, Text.isBlank c = true)
    (opens : Text.isQuote mark = true) (plain : Unquoted id) (closes : Text.isQuote close = true)
    (blank' : ∀ c ∈ after, Text.isBlank c = true) :
    ∃ other, Catches lookup s other ∧ (other = id ∨ lookupOpening <:+: other) := by
  obtain ⟨m, listed, pre', taken', rest', k', x, found, -, same, reach⟩ :=
    all_matches_near whole (lookup_takes starts blank opens plain closes blank')
  obtain ⟨gap', mark', id', close', after', blanks, opens', plain', closes', blanks', rfl, rfl⟩ := lookup_taken found.way
  refine ⟨id', Found.catches listed found, ?_⟩
  cases x with
  | nil =>
    simp only [List.append_assoc, List.nil_append, List.cons_append, List.append_cancel_left_eq] at same
    obtain ⟨-, -, ids⟩ := Text.cut_unique same (blanks_unquoted blanks) (blanks_unquoted blank) opens' opens
    exact .inl (Text.cut_unique ids plain'.2 plain.2 closes' closes).1
  | cons d x =>
    right
    rw [opening_eq] at same reach ⊢
    simp only [List.append_assoc, List.nil_append, List.cons_append] at same
    have same := (List.cons.inj same).2
    have wordless {g : Text} (blank : ∀ c ∈ g, Text.isBlank c = true) : 'c' ∉ g :=
      fun member => absurd (blank _ member) (by decide)
    have letter : Text.isQuote 'c' = false := by decide
    have inside : x ++ (('c' :: openingTail) ++ (gap ++ mark :: (id ++ close :: (after ++ ')' :: w)))) =
        (openingTail ++ (gap' ++ [mark'])) ++ (id' ++ (close' :: (after' ++ [')']) ++ rest')) := by
      simpa [List.append_assoc] using same.symm
    refine Text.infix_between inside ?_ ?_ ?_ ?_
    · have short := reach.resolve_left (List.cons_ne_nil _ _)
      simp only [List.length_append, List.length_cons, List.length_nil] at short ⊢
      omega
    · simp only [List.mem_append, List.mem_singleton, not_or]
      exact ⟨opening_single, wordless blanks, quote_among opens' letter⟩
    · simp only [List.mem_cons, List.mem_append, List.not_mem_nil, or_false, not_or]
      exact ⟨quote_among closes' letter, wordless blanks', by decide⟩
    · intro inside
      have quoteless : ∀ c ∈ 'c' :: openingTail, Text.isQuote c = false := by decide
      exact absurd (quoteless _ inside) (by rw [closes']; exact Bool.noConfusion)

/-- A step with the argument that names a credential, before any closing parenthesis. -/
def stepCall (step : Text) : Pattern :=
  edge ++ exactly step ++ exactly ['('] ++ longest 0 (· != ')') ++ exactly (argumentName ++ [':']) ++ blanks ++ quotedId

def nameTail : Text := "redentialsId"

theorem name_eq : argumentName = 'c' :: nameTail := by decide

theorem name_single : 'c' ∉ nameTail := by decide

theorem name_words : ∀ c ∈ argumentName, Text.isWord c = true := by decide

-- Of two places of the name one comes first, or they are the same.
theorem name_cases {u v x y : Text} (same : u ++ (argumentName ++ v) = x ++ (argumentName ++ y)) :
    (∃ z, u = x ++ (argumentName ++ z)) ∨ (x = u ∧ v = y) ∨
      ∃ z, x = u ++ (argumentName ++ z) ∧ v = z ++ (argumentName ++ y) := by
  rw [name_eq] at same ⊢
  exact Text.occurrence_cases name_single same

theorem name_behind {d : Char} {t x y : Text} (other : d ≠ 'c') (begins : d :: t = x ++ (argumentName ++ y)) :
    ∃ z, x = d :: z ∧ t = z ++ (argumentName ++ y) := by
  cases x with
  | nil =>
    rw [name_eq] at begins
    exact absurd (List.cons.inj begins).1 other
  | cons e x =>
    obtain ⟨rfl, rest⟩ := List.cons.inj begins
    exact ⟨x, rfl, rest⟩

-- What ends in no letter does not end inside the name.
theorem name_uncut {pre t t' : Text} (outside : (pre ++ t).getLast?.any Text.isWord = false)
    (cut : argumentName = t ++ t') : t = [] := by
  rcases List.eq_nil_or_concat t with rfl | ⟨t, c, rfl⟩
  · rfl
  · rw [List.concat_eq_append, ← List.append_assoc, last_append_one, Option.any_some, name_words c (by rw [cut]; simp)] at outside
    cases outside

/-- What a step is called so that its calls can be told apart from their arguments. -/
structure StepName (step : Text) : Prop where
  filled : step ≠ []
  words : ∀ c ∈ step, Text.isWord c = true
  other : ¬ argumentName <:+: step

section Calls

variable {step front gap id w : Text} {mark close : Char} (named : StepName step)

include named

theorem StepName.begins : ∃ c r, step = c :: r ∧ Text.isWord c = true := by
  obtain ⟨c, r, rfl⟩ := List.exists_cons_of_ne_nil named.filled
  exact ⟨c, r, rfl, named.words c List.mem_cons_self⟩

theorem StepName.letter : step.head?.any Text.isWord = true := by
  obtain ⟨c, r, rfl, word⟩ := named.begins
  exact word

theorem call_taken {before : Option Char} {taken rest : Text} {k : Texts} (way : (stepCall step).Takes before taken rest k) :
    ∃ front gap mark id close, ')' ∉ front ∧ (∀ c ∈ gap, Text.isBlank c = true) ∧ Text.isQuote mark = true ∧ Unquoted id ∧
      Text.isQuote close = true ∧ k = [(1, id)] ∧
      taken = step ++ ['('] ++ front ++ (argumentName ++ [':']) ++ gap ++ mark :: (id ++ [close]) := by
  obtain ⟨_, _, _, _, toQuoted, quoted, rfl, rfl⟩ := then_takes.1 way
  obtain ⟨_, gap, toGap, blank, rfl⟩ := then_blanks.1 toQuoted
  obtain ⟨_, toName, rfl⟩ := then_exactly.1 toGap
  obtain ⟨_, front, toFront, -, open_, rfl⟩ := then_longest.1 toName
  obtain ⟨_, toStep, rfl⟩ := then_exactly.1 toFront
  obtain ⟨-, rfl, rfl⟩ := (edge_then named.letter).1 toStep
  obtain ⟨mark, id, close, opens, plain, closes, rfl, rfl⟩ := quoted_takes_iff.1 quoted
  exact ⟨front, gap, mark, id, close, fun member => by simpa using open_ _ member, blank, opens, plain, closes, rfl, rfl⟩

theorem call_takes {before : Option Char} {rest : Text} (starts : before.any Text.isWord = false) (open_ : ')' ∉ front)
    (blank : ∀ c ∈ gap, Text.isBlank c = true) (opens : Text.isQuote mark = true) (plain : Unquoted id)
    (closes : Text.isQuote close = true) : (stepCall step).Takes before
      (step ++ ['('] ++ front ++ (argumentName ++ [':']) ++ gap ++ mark :: (id ++ [close])) rest [(1, id)] := by
  refine then_takes.2 ⟨_, _, [], _, then_blanks.2 ⟨_, gap, then_exactly.2 ⟨_, then_longest.2 ⟨_, front, then_exactly.2
    ⟨_, (edge_then named.letter).2 ⟨starts, rfl, rfl⟩, rfl⟩, Nat.zero_le _, fun c member => ?_, rfl⟩, rfl⟩, blank, rfl⟩,
    quoted_takes_iff.2 ⟨mark, id, close, opens, plain, closes, rfl, rfl⟩, rfl, rfl⟩
  simp only [bne_iff_ne, ne_eq]
  rintro rfl
  exact open_ member

theorem StepName.solid : ∀ c ∈ step ++ ['('], Text.isBlank c = false := by
  intro c inside
  refine Bool.eq_false_iff.2 fun blank => ?_
  rcases List.mem_append.1 inside with inside | inside
  · have word := named.words c inside
    rw [Text.blank_no_word blank] at word
    cases word
  · obtain rfl := List.mem_singleton.1 inside
    revert blank
    decide

-- Between the name of an argument and the end of its value only the value itself has room for a call.
theorem opening_in_quotes {x behind rest : Text} (blank : ∀ c ∈ gap, Text.isBlank c = true)
    (opens : Text.isQuote mark = true) (closes : Text.isQuote close = true)
    (same : x ++ (step ++ '(' :: behind) = ':' :: (gap ++ mark :: (id ++ close :: rest)))
    (reach : x.length < (':' :: (gap ++ mark :: (id ++ [close]))).length) : step ++ ['('] <:+: id := by
  obtain ⟨c, r, rfl, word⟩ := named.begins
  have apart {d : Char} (wordless : Text.isWord d = false) : c ≠ d := by
    rintro rfl
    rw [word] at wordless
    cases wordless
  have inside : x ++ ((c :: (r ++ ['('])) ++ behind) = (':' :: (gap ++ [mark])) ++ (id ++ (close :: [] ++ rest)) := by
    simpa [List.append_assoc] using same
  refine Text.infix_between inside ?_ ?_ ?_ ?_
  · simp only [List.length_append, List.length_cons, List.length_nil] at reach ⊢
    omega
  · simp only [List.mem_cons, List.mem_append, List.not_mem_nil, or_false, not_or]
    exact ⟨apart (by decide), fun member => apart (Text.blank_no_word (blank c member)) rfl,
      apart (Text.quote_no_word opens)⟩
  · exact fun member => apart (Text.quote_no_word closes) (List.mem_singleton.1 member)
  · intro inside
    have wordless := Text.quote_no_word closes
    rcases List.mem_append.1 (show close ∈ (c :: r) ++ ['('] from inside) with inside | inside
    · rw [named.words close inside] at wordless
      cases wordless
    · obtain rfl := List.mem_singleton.1 inside
      cases closes

-- A call is found by the only argument that names a credential in it, unless it stands in the quotes of another.
theorem call_caught {s pre : Text}
    (whole : s = pre ++ ((step ++ ['('] ++ front ++ (argumentName ++ [':']) ++ gap ++ mark :: (id ++ [close])) ++ w))
    (starts : pre.getLast?.any Text.isWord = false) (open_ : ')' ∉ front) (blank : ∀ c ∈ gap, Text.isBlank c = true)
    (opens : Text.isQuote mark = true) (plain : Unquoted id) (closes : Text.isQuote close = true)
    (once : ¬ argumentName <:+: front)
    (later : ∀ x y, ':' :: (gap ++ mark :: (id ++ close :: w)) = x ++ (argumentName ++ y) → ')' ∈ x) :
    ∃ other, Catches (stepCall step) s other ∧ (other = id ∨ step ++ ['('] <:+: other) := by
  obtain ⟨m, listed, pre', taken', rest', k', x, found, rfl, same, reach⟩ :=
    all_matches_near whole (call_takes named starts open_ blank opens plain closes)
  obtain ⟨front', gap', mark', id', close', open', blank', opens', plain', closes', rfl, rfl⟩ := call_taken named found.way
  refine ⟨id', Found.catches listed found, ?_⟩
  have own : ¬ argumentName <:+: step ++ '(' :: front := fun inside =>
    (Text.infix_beside (by decide) inside).elim named.other once
  -- Both references name the argument; which of the two names comes first?
  have names : (x ++ (step ++ '(' :: front)) ++ (argumentName ++ ':' :: (gap ++ mark :: (id ++ close :: w))) =
      (step ++ '(' :: front') ++ (argumentName ++ ':' :: (gap' ++ mark' :: (id' ++ close' :: rest'))) := by
    simpa [List.append_assoc] using same.symm
  rcases name_cases names with ⟨z, before⟩ | ⟨-, ids⟩ | ⟨z, after, tail⟩
  · right
    rcases List.append_eq_append_iff.1 before with ⟨t, -, mine⟩ | ⟨t, rfl, mine⟩
    · exact absurd ⟨t, z, by rw [mine, List.append_assoc]⟩ own
    · rcases List.append_eq_append_iff.1 mine with ⟨t, rfl, rfl⟩ | ⟨t', cut, -⟩
      · simp only [List.append_assoc, List.append_cancel_left_eq, List.cons_append, List.cons.injEq, true_and] at names
        refine opening_in_quotes named blank' opens' closes' names ?_
        have short := reach.resolve_left (by simp)
        simp only [List.length_append, List.length_cons, List.length_nil] at short ⊢
        omega
      · rw [← List.append_assoc] at starts
        obtain rfl := name_uncut starts cut
        exact absurd ⟨[], z, mine⟩ own
  · left
    obtain ⟨-, -, ids⟩ :=
      Text.cut_unique (List.cons.inj ids).2 (blanks_unquoted blank) (blanks_unquoted blank') opens opens'
    exact (Text.cut_unique ids plain.2 plain'.2 closes closes').1.symm
  · -- The other call would close before it comes to the name that it was found by.
    refine absurd ?_ open'
    have ends : z <:+ step ++ '(' :: front' := by
      rw [after]
      exact (List.suffix_append _ _).trans (List.suffix_append _ _)
    have suffix : z <:+ front' := by
      refine List.suffix_of_suffix_length_le ends ?_ ?_
      · exact (List.suffix_cons _ _).trans (List.suffix_append _ _)
      · have lengths := congrArg List.length after
        simp only [List.length_append, List.length_cons] at lengths
        omega
    exact suffix.mem (later z _ tail)

end Calls

section Scanned

variable {r : CredentialReference} {script id : Text}

-- What the pattern of a reference finds comes out of the scan, unless nothing is left of it without blanks.
theorem catches_scanned (known : r ∈ all) (caught : Catches r.pattern (Script.stripComments script) id)
    (filled : Text.trim id ≠ []) : ∃ h ∈ scan script, h.sourceId = Text.trim id := by
  obtain ⟨m, listed, some_, captured⟩ := caught
  obtain ⟨span, slot⟩ := Option.isSome_iff_exists.1 some_
  have text : span.text = id := by
    rw [← captured]
    unfold Match.captured Match.text?
    rw [slot]
    rfl
  obtain ⟨h, made, own⟩ : ∃ h, hitOf? (Script.stripComments script) r m = some h ∧ h.sourceId = Text.trim id := by
    unfold hitOf?
    rw [slot]
    dsimp only [Option.bind_eq_bind, Option.bind_some]
    rw [text, if_neg (by simpa using filled)]
    exact ⟨_, rfl, rfl⟩
  have hit : h ∈ hitsIn (Script.stripComments script) :=
    List.mem_flatMap.2 ⟨r, known, List.mem_filterMap.2 ⟨m, listed, made⟩⟩
  unfold scan
  -- Of the references to one credential one is kept, under the name of it that they share.
  generalize sorted : (hitsIn (Script.stripComments script)).mergeSort _ = hits
  have member : h ∈ hits := by
    rw [← sorted]
    exact List.mem_mergeSort.2 hit
  have key : Text.trim id ∈ (Keyed.firstOfPairs (hits.map fun h => (h.sourceId, h))).map (·.1) := by
    rw [Keyed.mem_keys_firstOfPairs, List.map_map]
    exact List.mem_map.2 ⟨h, member, own⟩
  obtain ⟨⟨name, kept⟩, entry, rfl⟩ := List.mem_map.1 key
  obtain ⟨other, -, pair⟩ := List.mem_map.1 (Keyed.mem_of_mem_firstOfPairs entry)
  obtain ⟨same, rfl⟩ := Prod.mk.inj pair
  exact ⟨other, List.mem_map.2 ⟨_, entry, rfl⟩, same⟩

-- A reference that is found, or in whose place another one is, is told by the scan.
theorem caught_scanned {opening : Text} (known : r ∈ all) (filled : opening ≠ [])
    (solid : ∀ c ∈ opening, Text.isBlank c = false) (named : Text.trim id ≠ [])
    (caught : ∃ other, Catches r.pattern (Script.stripComments script) other ∧ (other = id ∨ opening <:+: other)) :
    (∃ h ∈ scan script, h.sourceId = Text.trim id) ∨ ∃ h ∈ scan script, opening <:+: h.sourceId := by
  obtain ⟨other, caught, rfl | inside⟩ := caught
  · exact .inl (catches_scanned known caught named)
  · have kept := Text.infix_trim filled solid inside
    have more : Text.trim other ≠ [] := by
      intro none
      rw [none] at kept
      exact filled (List.infix_nil.1 kept)
    obtain ⟨h, member, own⟩ := catches_scanned known caught more
    exact .inr ⟨h, member, own ▸ kept⟩

end Scanned

end CredentialReference
end PipelineMigration
