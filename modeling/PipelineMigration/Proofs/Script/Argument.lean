import PipelineMigration.Proofs.Keyed
import PipelineMigration.Proofs.Number.Numeral
import PipelineMigration.Proofs.Pattern.Stretch
import PipelineMigration.Script.Bracket
set_option autoImplicit false

/- Named arguments of a call, a number and then a literal. Each is found under its name, although a search for one kind
   goes over the whole text: no quote mark stands in front of the literal, and behind its name no number. -/
namespace PipelineMigration

open Text (isWord isBlank isQuote isDecimal isAsciiDigit)

namespace Text

variable {p : Char → Bool} {u v u' v' : Text} {c d : Char}

-- A text is cut at the first character of a class, or behind it.
theorem cut_cases (same : u ++ c :: v = u' ++ d :: v') (front : ∀ x ∈ u, p x = false) (cut : p c = true)
    (cut' : p d = true) :
    (u' = u ∧ d = c ∧ v' = v) ∨ ∃ w, u' = u ++ c :: w ∧ v = w ++ d :: v' := by
  rcases List.append_eq_append_iff.1 same with ⟨t, rfl, behind⟩ | ⟨t, rfl, behind⟩
  · cases t with
    | nil =>
      obtain ⟨rfl, rfl⟩ := List.cons.inj behind
      exact .inl ⟨List.append_nil u, rfl, rfl⟩
    | cons x t =>
      obtain ⟨rfl, rfl⟩ := List.cons.inj behind
      exact .inr ⟨t, rfl, rfl⟩
  · cases t with
    | nil =>
      obtain ⟨rfl, rfl⟩ := List.cons.inj behind
      exact .inl ⟨(List.append_nil u').symm, rfl, rfl⟩
    | cons x t =>
      obtain ⟨rfl, -⟩ := List.cons.inj behind
      have other := front d (List.mem_append_right u' List.mem_cons_self)
      rw [cut'] at other
      cases other

-- A text is cut in one way only at the last character of a class.
theorem cut_last (same : u ++ c :: v = u' ++ d :: v') (back : ∀ x ∈ v, p x = false) (back' : ∀ x ∈ v', p x = false)
    (cut : p c = true) (cut' : p d = true) : u = u' ∧ v = v' := by
  have turned : v.reverse ++ c :: u.reverse = v'.reverse ++ d :: u'.reverse := by
    simpa using congrArg List.reverse same
  obtain ⟨behind, -, front⟩ := cut_unique turned (fun x member => back x (List.mem_reverse.1 member))
    (fun x member => back' x (List.mem_reverse.1 member)) cut cut'
  exact ⟨List.reverse_injective front, List.reverse_injective behind⟩

-- A word at the end of a text is no blank.
theorem blank_gap {word gap : Text} (same : u ++ gap = v ++ word) (filled : word ≠ [])
    (words : ∀ x ∈ word, isWord x = true) (blank : ∀ x ∈ gap, isBlank x = true) : gap = [] := by
  rcases List.eq_nil_or_concat gap with rfl | ⟨front, x, rfl⟩
  · rfl
  · have last := congrArg List.getLast? same
    rw [List.concat_eq_append, ← List.append_assoc, List.getLast?_concat,
      List.getLast?_append_of_ne_nil v filled] at last
    have word := words x (List.mem_of_getLast? last.symm)
    rw [blank_no_word (blank x (by simp))] at word
    cases word

end Text

namespace Script

open Pattern

section Ways

variable {before : Option Char} {taken rest : Text} {k : Texts}

/-- A name that a colon follows, with blanks around it. -/
structure Named (name gap space : Text) : Prop where
  filled : name ≠ []
  words : ∀ c ∈ name, isWord c = true
  gap : ∀ c ∈ gap, isBlank c = true
  space : ∀ c ∈ space, isBlank c = true

theorem name_takes : argumentName.Takes before taken rest k ↔
    ∃ name gap space, Named name gap space ∧ taken = name ++ (gap ++ ':' :: space) ∧ k = [(1, name)] := by
  have colon : ":".toList = [':'] := by decide
  unfold argumentName
  simp only [then_blanks, then_exactly, colon]
  constructor
  · rintro ⟨_, space, ⟨_, ⟨name, gap, ⟨_, ⟨⟨enough, words⟩, rfl⟩, rfl⟩, blank, rfl⟩, rfl⟩, blanks, rfl⟩
    exact ⟨name, gap, space, ⟨List.ne_nil_of_length_pos enough, words, blank, blanks⟩, by simp, rfl⟩
  · rintro ⟨name, gap, space, held, rfl, rfl⟩
    refine ⟨_, space,
      ⟨_, ⟨name, gap, ⟨[], ⟨⟨List.length_pos_iff.2 held.filled, held.words⟩, rfl⟩, rfl⟩, held.gap, rfl⟩, rfl⟩,
      held.space, by simp⟩

/-- What follows the opening mark of a literal. -/
inductive Literal (mark : Char) (value : Text) : Text → Prop
  | single : (∀ c ∈ value, c ≠ mark) → Literal mark value (value ++ [mark])
  | triple : Literal mark value (mark :: mark :: (value ++ [mark, mark, mark]))

theorem marked_takes {marks : Text} {a : Pattern}
    (way : (exactly marks ++ capture 2 a ++ exactly marks).Takes before taken rest k) :
    ∃ value l, a.Takes (lastOf before marks) value (marks ++ rest) l ∧ taken = marks ++ (value ++ marks) ∧
      k = (2, value) :: l := by
  obtain ⟨u, first, rfl⟩ := then_exactly.1 way
  obtain ⟨_, value, _, _, ⟨rfl, rfl⟩, ⟨l, inside, rfl⟩, rfl, rfl⟩ := then_takes.1 first
  exact ⟨value, l, inside, by rw [List.append_assoc], by simp⟩

theorem quoted_literal (way : (anyOf [
    "\'\'\'" ++ capture 2 (shortest 0 fun _ => true) ++ "\'\'\'",
    "\"\"\"" ++ capture 2 (shortest 0 fun _ => true) ++ "\"\"\"",
    "\'" ++ capture 2 (longest 0 (· != '\'')) ++ "\'",
    "\"" ++ capture 2 (longest 0 (· != '"')) ++ "\""]).Takes before taken rest k) :
    ∃ mark value body, isQuote mark = true ∧ Literal mark value body ∧ taken = mark :: body ∧ k = [(2, value)] := by
  rcases way with way | way | way | way
  · obtain ⟨value, _, ⟨-, rfl⟩, rfl, rfl⟩ := marked_takes way
    exact ⟨'\'', value, _, rfl, .triple, by simp, rfl⟩
  · obtain ⟨value, _, ⟨-, rfl⟩, rfl, rfl⟩ := marked_takes way
    exact ⟨'"', value, _, rfl, .triple, by simp, rfl⟩
  · obtain ⟨value, _, ⟨⟨-, plain⟩, rfl⟩, rfl, rfl⟩ := marked_takes way
    exact ⟨'\'', value, _, rfl, .single fun c member => by simpa using plain c member, by simp, rfl⟩
  · obtain ⟨value, _, ⟨⟨-, plain⟩, rfl⟩, rfl, rfl⟩ := marked_takes way
    exact ⟨'"', value, _, rfl, .single fun c member => by simpa using plain c member, by simp, rfl⟩

theorem literal_takes (way : literalArgument.Takes before taken rest k) :
    ∃ name gap space mark value body, Named name gap space ∧ isQuote mark = true ∧ Literal mark value body ∧
      taken = name ++ (gap ++ ':' :: (space ++ mark :: body)) ∧ k = [(2, value), (1, name)] := by
  obtain ⟨_, _, _, _, named, literal, rfl, rfl⟩ := then_takes.1 way
  obtain ⟨name, gap, space, held, rfl, rfl⟩ := name_takes.1 named
  obtain ⟨mark, value, body, quote, inside, rfl, rfl⟩ := quoted_literal literal
  exact ⟨name, gap, space, mark, value, body, held, quote, inside, by simp, rfl⟩

inductive Bare : Text → Prop
  | yes : Bare "true".toList
  | no : Bare "false".toList
  | number {sign digits : Text} : sign = [] ∨ sign = ['-'] → digits ≠ [] → (∀ c ∈ digits, isDecimal c = true) →
      Bare (sign ++ digits)

theorem bare_value (way : (anyOf ["true", "false", optional "-" ++ longest 1 isDecimal]).Takes before taken rest k) :
    Bare taken ∧ k = [] := by
  rcases way with ⟨rfl, rfl⟩ | ⟨rfl, rfl⟩ | way
  · exact ⟨.yes, rfl⟩
  · exact ⟨.no, rfl⟩
  · obtain ⟨sign, digits, sign_, enough, decimal, rfl⟩ := then_longest.1 way
    have filled : digits ≠ [] := List.ne_nil_of_length_pos enough
    rcases sign_ with ⟨rfl, rfl⟩ | ⟨rfl, rfl⟩
    · exact ⟨.number (.inr (by decide)) filled decimal, rfl⟩
    · exact ⟨.number (.inl rfl) filled decimal, rfl⟩

theorem Bare.head {value : Text} (bare : Bare value) :
    ∃ c r, value = c :: r ∧ (['t', 'f', '-'].contains c || isDecimal c) = true := by
  cases bare with
  | yes => exact ⟨'t', "rue".toList, by decide, by decide⟩
  | no => exact ⟨'f', "alse".toList, by decide, by decide⟩
  | @number sign digits signed filled decimal =>
    rcases signed with rfl | rfl
    · obtain ⟨c, r, rfl⟩ := List.exists_cons_of_ne_nil filled
      exact ⟨c, r, rfl, by rw [decimal c List.mem_cons_self, Bool.or_true]⟩
    · exact ⟨'-', digits, rfl, by decide⟩

theorem bare_takes (way : bareArgument.Takes before taken rest k) :
    ∃ name gap space value, Named name gap space ∧ Bare value ∧ taken = name ++ (gap ++ ':' :: (space ++ value)) ∧
      k = [(2, value), (1, name)] ∧ (value.getLast?.any isWord != rest.head?.any isWord) = true := by
  obtain ⟨_, _, _, _, first, ⟨ends, rfl, rfl⟩, rfl, rfl⟩ := then_takes.1 way
  obtain ⟨u, value, _, _, named, ⟨_, inside, rfl⟩, rfl, rfl⟩ := then_takes.1 first
  obtain ⟨bare, rfl⟩ := bare_value inside
  obtain ⟨name, gap, space, held, rfl, rfl⟩ := name_takes.1 named
  refine ⟨name, gap, space, value, held, bare, by simp, rfl, ?_⟩
  obtain ⟨c, r, rfl, -⟩ := bare.head
  have last (u : Text) : lastOf before (u ++ c :: r) = (c :: r).getLast? := by
    rw [last_of_append, lastOf, List.getLast?_cons, Option.some_or]
  rwa [last] at ends

end Ways

/-- Two named arguments, a number and a literal. -/
structure NumberAndLiteral where
  name : Text
  digits : Text
  other : Text
  value : Text
  named : name ≠ [] ∧ ∀ c ∈ name, isWord c = true
  counted : digits ≠ [] ∧ ∀ c ∈ digits, isAsciiDigit c = true
  called : other ≠ [] ∧ ∀ c ∈ other, isWord c = true
  plain : ∀ c ∈ value, isQuote c = false ∧ c ≠ ':'

namespace NumberAndLiteral

variable (a : NumberAndLiteral)

/-- The first argument, up to the name of the other one. -/
def front : Text := a.name ++ ':' :: ' ' :: (a.digits ++ [',', ' '])

def text : Text := a.front ++ (a.other ++ ':' :: ' ' :: '\'' :: (a.value ++ ['\'']))

section Found

variable {m : Match} {pre taken rest : Text} {k : Texts}

theorem word_plain {c : Char} (word : isWord c = true) : isQuote c = false ∧ isBlank c = false ∧ c ≠ ':' := by
  refine ⟨?_, ?_, ?_⟩
  · cases quote : isQuote c with
    | false => rfl
    | true => rw [Text.quote_no_word quote] at word; cases word
  · cases blank : isBlank c with
    | false => rfl
    | true => rw [Text.blank_no_word blank] at word; cases word
  · rintro rfl
    exact absurd word (by decide)

theorem blank_no_colon {c : Char} (blank : isBlank c = true) : (c == ':') = false :=
  beq_false_of_ne fun same => by rw [same] at blank; exact absurd blank (by decide)

theorem front_unquoted : ∀ c ∈ a.front ++ (a.other ++ [':', ' ']), isQuote c = false := by
  have digits : ∀ c ∈ a.digits, isQuote c = false := fun c member =>
    (word_plain (Text.digit_word (a.counted.2 c member))).1
  have words {word : Text} (each : ∀ c ∈ word, isWord c = true) : ∀ c ∈ word, isQuote c = false := fun c member =>
    (word_plain (each c member)).1
  have marks : ∀ c ∈ [':', ' ', ','], isQuote c = false := by decide
  simp only [front, List.forall_mem_append, List.forall_mem_cons] at marks ⊢
  exact ⟨⟨words a.named.2, marks.1, marks.2.1, digits, marks.2.2.1, marks.2.1, List.forall_mem_nil _⟩, words a.called.2,
    marks.1, marks.2.1, List.forall_mem_nil _⟩

-- Between the only quote marks of the text a literal has no other value.
theorem literal_value {front rest value body : Text} {mark : Char} (quote : isQuote mark = true)
    (literal : Literal mark value body) (whole : a.text = front ++ mark :: (body ++ rest)) :
    front = a.front ++ (a.other ++ [':', ' ']) ∧ value = a.value := by
  have unquoted : ∀ c ∈ a.value, isQuote c = false := fun c member => (a.plain c member).1
  have text : a.text = (a.front ++ (a.other ++ [':', ' '])) ++ '\'' :: (a.value ++ ['\'']) := by
    simp [NumberAndLiteral.text]
  have filled : body ++ rest ≠ [] := by cases literal <;> simp
  rcases Text.cut_cases (text.symm.trans whole) a.front_unquoted rfl quote with ⟨rfl, rfl, inside⟩ | ⟨w, -, behind⟩
  · refine ⟨rfl, ?_⟩
    cases literal with
    | single plain =>
      have unmarked : ∀ c ∈ a.value, (c == '\'') = false := fun c member => beq_false_of_ne fun same =>
        absurd (unquoted '\'' (same ▸ member)) (by decide)
      rw [List.append_assoc] at inside
      exact (Text.cut_unique (p := (· == '\'')) inside (fun c member => by simpa using plain c member) unmarked rfl rfl).1
    | triple =>
      cases none : a.value with
      | nil =>
        rw [none] at inside
        cases inside
      | cons c r =>
        rw [none] at inside
        obtain ⟨rfl, -⟩ := List.cons.inj inside
        exact absurd (unquoted '\'' (none ▸ List.mem_cons_self)) (by decide)
  -- Behind the first mark there is one more, which no literal ends with.
  · rcases Text.cut_cases behind unquoted rfl quote with ⟨-, -, nothing⟩ | ⟨w', -, nothing⟩
    · exact absurd nothing filled
    · cases w' <;> cases nothing

-- A literal is found under the other name, or under an end of it.
theorem literal_found (found : literalArgument.Found a.text m pre taken rest k) :
    ∃ t, pre = a.front ++ t ∧ a.other = t ++ m.captured 1 ∧ m.captured 2 = a.value := by
  obtain ⟨name, gap, space, mark, value, body, held, quote, inside, rfl, rfl⟩ := literal_takes found.way
  have whole : a.text = (pre ++ (name ++ (gap ++ ':' :: space))) ++ mark :: (body ++ rest) := by
    rw [found.whole]
    simp
  obtain ⟨before, rfl⟩ := a.literal_value quote inside whole
  have same : (pre ++ name ++ gap) ++ ':' :: space = (a.front ++ a.other) ++ ':' :: [' '] := by simpa using before
  obtain ⟨names, -⟩ :=
    Text.cut_last (p := (· == ':')) same (fun c member => blank_no_colon (held.space c member)) (by decide) rfl rfl
  obtain rfl := Text.blank_gap names a.called.1 a.called.2 held.gap
  rw [List.append_nil] at names
  rw [found.captured, found.captured]
  rcases List.append_eq_append_iff.1 names with ⟨t, front, behind⟩ | ⟨t, front, behind⟩
  · rcases List.eq_nil_or_concat t with rfl | ⟨t, c, rfl⟩
    · exact ⟨[], by rw [front, List.append_nil, List.append_nil], behind.symm, rfl⟩
    -- The front ends in a space, which is no part of a name.
    · have ends : a.front = (a.name ++ ':' :: ' ' :: (a.digits ++ [','])) ++ [' '] := by simp [NumberAndLiteral.front]
      have last := congrArg List.getLast? ends
      rw [List.getLast?_concat, front, List.concat_eq_append, ← List.append_assoc, List.getLast?_concat] at last
      obtain rfl := Option.some.inj last
      exact absurd (held.words ' ' (by rw [behind]; simp)) (by decide)
  · exact ⟨t, front, behind, rfl⟩

-- Behind the colon of the literal there is no bare value.
theorem no_bare_literal {space value rest : Text} (bare : Bare value) (blank : ∀ c ∈ space, isBlank c = true) :
    space ++ (value ++ rest) ≠ ' ' :: '\'' :: (a.value ++ ['\'']) := by
  obtain ⟨c, r, rfl, opens⟩ := bare.head
  intro same
  match space with
  | [] =>
    obtain ⟨rfl, -⟩ := List.cons.inj same
    exact absurd opens (by decide)
  | [x] =>
    obtain ⟨rfl, -⟩ := List.cons.inj (List.cons.inj same).2
    exact absurd opens (by decide)
  | x :: y :: space =>
    obtain ⟨rfl, -⟩ := List.cons.inj (List.cons.inj same).2
    exact absurd (blank '\'' (by simp)) (by decide)

theorem digits_first : ∃ d ds, a.digits = d :: ds ∧ isAsciiDigit d = true := by
  obtain ⟨filled, ascii⟩ := a.counted
  obtain ⟨d, ds, digits⟩ := List.exists_cons_of_ne_nil filled
  exact ⟨d, ds, digits, ascii d (digits ▸ List.mem_cons_self)⟩

-- One space stands between the colon and a bare value there.
theorem bare_opening {space value rest more : Text} (bare : Bare value) (blank : ∀ c ∈ space, isBlank c = true)
    (same : space ++ (value ++ rest) = ' ' :: (a.digits ++ ',' :: more)) : value ++ rest = a.digits ++ ',' :: more := by
  match space with
  | [] =>
    obtain ⟨c, r, rfl, opens⟩ := bare.head
    obtain ⟨rfl, -⟩ := List.cons.inj same
    exact absurd opens (by decide)
  | [x] => exact (List.cons.inj same).2
  | x :: y :: space =>
    obtain ⟨d, ds, digits, first⟩ := a.digits_first
    rw [digits] at same
    obtain ⟨rfl, -⟩ := List.cons.inj (List.cons.inj same).2
    have other := blank y (by simp)
    rw [(word_plain (Text.digit_word first)).2.1] at other
    cases other

-- A number that ends at the edge of a word is all the digits.
theorem number_digits {number rest more : Text} (filled : number ≠ []) (decimal : ∀ c ∈ number, isDecimal c = true)
    (ends : (number.getLast?.any isWord != rest.head?.any isWord) = true)
    (opening : number ++ rest = a.digits ++ ',' :: more) : number = a.digits := by
  have ascii := a.counted.2
  rcases List.append_eq_append_iff.1 opening with ⟨t, whole, behind⟩ | ⟨t, whole, behind⟩
  · cases t with
    | nil => rw [whole, List.append_nil]
    -- A digit that is left would go on the word, and no edge would stand behind the value.
    | cons c t =>
      have next : isWord c = true := Text.digit_word (ascii c (by rw [whole]; simp))
      have last : number.getLast?.any isWord = true := by
        obtain ⟨front, x, rfl⟩ := (List.eq_nil_or_concat number).resolve_left filled
        rw [List.concat_eq_append, List.getLast?_concat, Option.any_some]
        exact Text.digit_word (ascii x (by rw [whole]; simp))
      rw [last, behind, List.cons_append, List.head?_cons, Option.any_some, next] at ends
      cases ends
  · cases t with
    | nil => rw [whole, List.append_nil]
    | cons c t =>
      obtain ⟨rfl, -⟩ := List.cons.inj behind
      exact absurd (decimal ',' (by rw [whole]; simp)) (by decide +kernel)

-- Behind the colon of the number the bare value is all its digits.
theorem bare_digits {space value rest more : Text} (bare : Bare value) (blank : ∀ c ∈ space, isBlank c = true)
    (ends : (value.getLast?.any isWord != rest.head?.any isWord) = true)
    (same : space ++ (value ++ rest) = ' ' :: (a.digits ++ ',' :: more)) : value = a.digits := by
  have opening := a.bare_opening bare blank same
  obtain ⟨d, ds, digits, first⟩ := a.digits_first
  have other {c : Char} {r : Text} (begins : c :: r = a.digits ++ ',' :: more) : isAsciiDigit c = true := by
    rw [digits] at begins
    obtain ⟨rfl, -⟩ := List.cons.inj begins
    exact first
  cases bare with
  | yes => exact absurd (other opening) (by decide)
  | no => exact absurd (other opening) (by decide)
  | @number sign number signed filled decimal =>
    rcases signed with rfl | rfl
    · exact a.number_digits filled decimal ends opening
    · exact absurd (other opening) (by decide)

-- A number is found under the first name, or under an end of it.
theorem number_found (found : bareArgument.Found a.text m pre taken rest k) :
    pre ++ m.captured 1 = a.name ∧ m.captured 2 = a.digits := by
  obtain ⟨name, gap, space, value, held, bare, rfl, rfl, ends⟩ := bare_takes found.way
  have number : a.text = a.name ++ ':' :: ((' ' :: (a.digits ++ ',' :: ' ' :: a.other)) ++ ':' :: ' ' :: '\'' ::
      (a.value ++ ['\''])) := by simp [NumberAndLiteral.text, NumberAndLiteral.front]
  have whole : a.text = (pre ++ (name ++ gap)) ++ ':' :: (space ++ (value ++ rest)) := by
    rw [found.whole]
    simp
  have colonless {word : Text} (words : ∀ c ∈ word, isWord c = true) : ∀ c ∈ word, (c == ':') = false := fun c member =>
    beq_false_of_ne (word_plain (words c member)).2.2
  rw [found.captured, found.captured]
  change pre ++ name = a.name ∧ value = a.digits
  rcases Text.cut_cases (p := (· == ':')) (number.symm.trans whole) (colonless a.named.2) rfl rfl with
    ⟨names, -, digits⟩ | ⟨w, -, behind⟩
  · have named : (pre ++ name) ++ gap = [] ++ a.name := by simpa using names
    obtain rfl := Text.blank_gap named a.named.1 a.named.2 held.gap
    have same : space ++ (value ++ rest) = ' ' :: (a.digits ++ ',' :: ' ' :: (a.other ++ ':' :: ' ' :: '\'' ::
      (a.value ++ ['\'']))) := by simpa using digits
    exact ⟨by simpa using named, a.bare_digits bare held.space ends same⟩
  · have digits := colonless fun c member => Text.digit_word (a.counted.2 c member)
    have front : ∀ c ∈ ' ' :: (a.digits ++ ',' :: ' ' :: a.other), (c == ':') = false := by
      have marks : ∀ c ∈ [' ', ','], (c == ':') = false := by decide
      simp only [List.forall_mem_cons, List.forall_mem_append] at marks ⊢
      exact ⟨marks.1, digits, marks.2.1, marks.1, colonless a.called.2⟩
    rcases Text.cut_cases (p := (· == ':')) behind front rfl rfl with ⟨-, -, literal⟩ | ⟨w', -, literal⟩
    · exact absurd literal (a.no_bare_literal bare held.space)
    · have colon : ':' ∈ ' ' :: '\'' :: (a.value ++ ['\'']) := by
        rw [literal]
        simp
      simp only [List.mem_cons, List.mem_append, List.not_mem_nil, or_false] at colon
      rcases colon with same | same | inside | same
      · cases same
      · cases same
      · exact absurd rfl (a.plain ':' inside).2
      · cases same

end Found

theorem literal_way (before : Option Char) : literalArgument.Takes before
    (a.other ++ ':' :: ' ' :: '\'' :: (a.value ++ ['\''])) [] [(2, a.value), (1, a.other)] := by
  have blank : ∀ c ∈ [' '], isBlank c = true := by decide
  have name : Named a.other [] [' '] := ⟨a.called.1, a.called.2, List.forall_mem_nil _, blank⟩
  have plain : ∀ c ∈ a.value, (c != '\'') = true := fun c member => bne_iff_ne.2 fun same => by
    have quote := (a.plain c member).1
    rw [same] at quote
    cases quote
  refine then_takes.2 ⟨a.other ++ ':' :: [' '], '\'' :: (a.value ++ ['\'']), [(1, a.other)], [(2, a.value)],
    name_takes.2 ⟨_, _, _, name, rfl, rfl⟩, .inr (.inr (.inl (then_exactly.2 ⟨'\'' :: a.value, ?_, rfl⟩))), by simp, rfl⟩
  exact ⟨['\''], a.value, [], [(2, a.value)], ⟨rfl, rfl⟩, ⟨[], ⟨⟨Nat.zero_le _, plain⟩, rfl⟩, rfl⟩, rfl, rfl⟩

theorem literal_seen : ∃ m ∈ literalArgument.allMatches a.text, m.captured 1 = a.other := by
  have whole : a.text = a.front ++ (a.other ++ ':' :: ' ' :: '\'' :: (a.value ++ ['\'']) ++ []) := by
    rw [List.append_nil]
    rfl
  obtain ⟨m, listed, pre, taken, rest, k, x, found, before, -, -⟩ := all_matches_near whole (a.literal_way _)
  obtain ⟨t, front, name, -⟩ := a.literal_found found
  have none : t = [] := by
    have length := congrArg List.length before
    rw [front, List.length_append, List.length_append] at length
    exact List.length_eq_zero_iff.1 (by omega)
  rw [none, List.nil_append] at name
  exact ⟨m, listed, name.symm⟩

theorem number_way (more : Text) : bareArgument.Takes none (a.name ++ ':' :: ' ' :: a.digits) (',' :: more)
    [(2, a.digits), (1, a.name)] := by
  have blank : ∀ c ∈ [' '], isBlank c = true := by decide
  have name : Named a.name [] [' '] := ⟨a.named.1, a.named.2, List.forall_mem_nil _, blank⟩
  have decimal : ∀ c ∈ a.digits, isDecimal c = true := fun c member => Text.digit_decimal (a.counted.2 c member)
  have digits : (anyOf ["true", "false", optional "-" ++ longest 1 isDecimal]).Takes
      (lastOf none (a.name ++ ':' :: [' '])) a.digits (',' :: more) [] :=
    .inr (.inr (then_longest.2 ⟨[], a.digits, .inr ⟨rfl, rfl⟩, List.length_pos_iff.2 a.counted.1, decimal, rfl⟩))
  have value : (argumentName ++ capture 2 (anyOf ["true", "false", optional "-" ++ longest 1 isDecimal])).Takes none
      (a.name ++ ':' :: ' ' :: a.digits) (',' :: more) [(2, a.digits), (1, a.name)] :=
    then_takes.2 ⟨a.name ++ ':' :: [' '], a.digits, [(1, a.name)], [(2, a.digits)],
      name_takes.2 ⟨_, _, _, name, rfl, rfl⟩, ⟨[], digits, rfl⟩, by simp, rfl⟩
  have last : ∃ front c, a.digits = front ++ [c] ∧ isWord c = true := by
    obtain ⟨front, c, whole⟩ := (List.eq_nil_or_concat a.digits).resolve_left a.counted.1
    rw [List.concat_eq_append] at whole
    exact ⟨front, c, whole, Text.digit_word (a.counted.2 c (by rw [whole]; simp))⟩
  obtain ⟨front, c, whole, word⟩ := last
  have shape : a.name ++ ':' :: ' ' :: a.digits = (a.name ++ ':' :: ' ' :: front) ++ [c] := by simp [whole]
  refine then_takes.2 ⟨_, [], _, [], by simpa using value, ⟨?_, rfl, rfl⟩, by simp, rfl⟩
  dsimp only
  rw [shape, lastOf, List.getLast?_concat, Option.some_or, Option.any_some, word, List.head?_cons, Option.any_some]
  decide

theorem number_seen : ∃ m ∈ bareArgument.allMatches a.text, m.captured 1 = a.name := by
  have whole : a.text = [] ++ (a.name ++ ':' :: ' ' :: a.digits ++ ',' :: (' ' :: (a.other ++ ':' :: ' ' :: '\'' ::
      (a.value ++ ['\''])))) := by simp [NumberAndLiteral.text, NumberAndLiteral.front]
  obtain ⟨m, listed, pre, taken, rest, k, x, found, before, -, -⟩ := all_matches_near whole (a.number_way _)
  obtain ⟨rfl, rfl⟩ := List.append_eq_nil_iff.1 before.symm
  exact ⟨m, listed, (a.number_found found).1⟩

-- Both arguments are found under their names.
theorem named_arguments (apart : ¬ a.name <:+ a.other) (apart' : ¬ a.other <:+ a.name) :
    Keyed.get? a.name (namedArguments a.text) = some a.digits ∧
      Keyed.get? a.other (namedArguments a.text) = some a.value := by
  have literal : ∀ m ∈ literalArgument.allMatches a.text, m.captured 1 <:+ a.other ∧ m.captured 2 = a.value := by
    intro m member
    obtain ⟨pre, taken, rest, k, found⟩ := all_matches_found member
    obtain ⟨t, -, name, value⟩ := a.literal_found found
    exact ⟨⟨t, name.symm⟩, value⟩
  have number : ∀ m ∈ bareArgument.allMatches a.text, m.captured 1 <:+ a.name ∧ m.captured 2 = a.digits := by
    intro m member
    obtain ⟨pre, taken, rest, k, found⟩ := all_matches_found member
    obtain ⟨name, digits⟩ := a.number_found found
    exact ⟨⟨pre, name⟩, digits⟩
  obtain ⟨m, first, own⟩ := a.number_seen
  obtain ⟨n, second, other⟩ := a.literal_seen
  unfold namedArguments
  constructor
  · refine Keyed.get?_firstOfPairs ?_ ?_
    · simp only [List.forall_mem_map, List.forall_mem_append]
      refine ⟨fun m member same => ?_, fun m member _ => (number m member).2⟩
      exact absurd (same ▸ (literal m member).1) apart
    · exact List.mem_map.2 ⟨_, List.mem_map_of_mem (List.mem_append_right _ first), own⟩
  · refine Keyed.get?_firstOfPairs ?_ ?_
    · simp only [List.forall_mem_map, List.forall_mem_append]
      refine ⟨fun m member _ => (literal m member).2, fun m member same => ?_⟩
      exact absurd (same ▸ (number m member).1) apart'
    · exact List.mem_map.2 ⟨_, List.mem_map_of_mem (List.mem_append_left _ second), other⟩

end NumberAndLiteral
end Script
end PipelineMigration
