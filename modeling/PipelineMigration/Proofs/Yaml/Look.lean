import PipelineMigration.Proofs.Pattern.Consumed
import PipelineMigration.Proofs.Yaml.Line
import PipelineMigration.Yaml.Scalar
set_option autoImplicit false

/- What plain scalars look like: an identifier is a word or a text, and so is a number with a unit. -/
namespace PipelineMigration.Yaml

open Pattern

namespace Tag

/-- Characters of numbers and times. -/
def isNumeral (c : Char) : Bool := isHexOrLow c || "+-.:xinINtTZ \t".toList.contains c

theorem numeral_of_digit (c : Char) (digit : Text.isAsciiDigit c = true) : isNumeral c = true := by
  simp [isNumeral, isHexOrLow, isDigitOrLow, digit]

theorem numeral_of_range (c low high : Char) (within : (low ≤ c && c ≤ high) = true)
    (digits : '0' ≤ low ∧ high ≤ '9') : isNumeral c = true := by
  refine numeral_of_digit c ?_
  simp only [Bool.and_eq_true, decide_eq_true_eq] at within
  simp only [Text.isAsciiDigit, Bool.and_eq_true, decide_eq_true_eq]
  exact ⟨Char.le_trans digits.1 within.1, Char.le_trans within.2 digits.2⟩

abbrev Numeral (c : Char) : Prop := isNumeral c = true

theorem low_numeral (c : Char) (low : isDigitOrLow c = true) : isNumeral c = true := by
  simp [isNumeral, isHexOrLow, low]

theorem hex_numeral (c : Char) (hex : isHexOrLow c = true) : isNumeral c = true := by
  simp [isNumeral, hex]

theorem exactly_uses (s : String) (all : s.toList.all isNumeral = true) : (Pattern.exactly s.toList).Uses Numeral :=
  List.all_eq_true.1 all

theorem sixties_uses : sixties.Uses Numeral :=
  ⟨⟨exactly_uses ":" (by decide), ⟨fun c within => numeral_of_range c '0' '5' within (by decide), trivial⟩⟩,
    numeral_of_digit⟩

theorem sign_mark_uses : signMark.Uses Numeral := by
  intro c mark
  simp only [Bool.or_eq_true, beq_iff_eq] at mark
  rcases mark with rfl | rfl <;> decide

theorem int_form_numeral (s : Text) (found : (intForm.matchStart s).isSome = true) : ∀ c ∈ s, isNumeral c = true := by
  refine whole_match_uses (sign ++ anyOf _) ⟨⟨sign_mark_uses, trivial⟩, ?_⟩ s found
  refine ⟨⟨exactly_uses "0b" (by decide), fun c bit => ?_⟩, ⟨exactly_uses "0" (by decide), fun c octal => ?_⟩,
    exactly_uses "0" (by decide),
    ⟨⟨fun c within => numeral_of_range c '1' '9' within (by decide), low_numeral⟩, sixties_uses, trivial⟩,
    exactly_uses "0x" (by decide), hex_numeral⟩
  · simp only [Bool.or_eq_true, beq_iff_eq] at bit
    rcases bit with (rfl | rfl) | rfl <;> decide
  · rcases Bool.or_eq_true_iff.1 octal with within | low
    · exact numeral_of_range c '0' '7' within (by decide)
    · rw [beq_iff_eq.1 low]
      decide

theorem exponent_uses : exponent.Uses Numeral := by
  refine ⟨⟨⟨fun c mark => ?_, sign_mark_uses⟩, numeral_of_digit⟩, trivial⟩
  simp only [Bool.or_eq_true, beq_iff_eq] at mark
  rcases mark with rfl | rfl <;> decide

theorem low_digits_uses : lowDigits.Uses Numeral := ⟨numeral_of_digit, low_numeral⟩

theorem float_form_numeral (s : Text) (found : (floatForm.matchStart s).isSome = true) :
    ∀ c ∈ s, isNumeral c = true := by
  have signs : sign.Uses Numeral := ⟨sign_mark_uses, trivial⟩
  have dot : (Pattern.exactly ".".toList).Uses Numeral := exactly_uses "." (by decide)
  refine whole_match_uses (anyOf _) ?_ s found
  exact ⟨⟨⟨⟨⟨signs, low_digits_uses⟩, dot⟩, low_numeral⟩, exponent_uses⟩, ⟨⟨dot, low_digits_uses⟩, exponent_uses⟩,
    ⟨⟨⟨⟨signs, low_digits_uses⟩, sixties_uses⟩, dot⟩, low_numeral⟩,
    ⟨⟨signs, dot⟩, exactly_uses "inf" (by decide), exactly_uses "Inf" (by decide), exactly_uses "INF" (by decide)⟩,
    dot, exactly_uses "nan" (by decide), exactly_uses "NaN" (by decide), exactly_uses "NAN" (by decide)⟩

theorem match_either (a b : Pattern) (s : Text) (found : ((orElse a b).matchStart s).isSome = true) :
    (a.matchStart s).isSome = true ∨ (b.matchStart s).isSome = true := by
  unfold matchStart matchAt at found ⊢
  rw [run] at found
  split at found
  · rename_i m same
    exact .inl (by rw [same]; rfl)
  · exact .inr found

theorem time_form_numeral (s : Text) (found : (timeForm.matchStart s).isSome = true) :
    ∀ c ∈ s, isNumeral c = true := by
  have digit : digit.Uses Numeral := numeral_of_digit
  have four : fourDigits.Uses Numeral := ⟨⟨⟨digit, digit⟩, digit⟩, digit⟩
  have two : twoDigits.Uses Numeral := ⟨digit, digit⟩
  have either : oneOrTwo.Uses Numeral := ⟨digit, digit, trivial⟩
  have dash : (Pattern.exactly "-".toList).Uses Numeral := exactly_uses "-" (by decide)
  have colon : (Pattern.exactly ":".toList).Uses Numeral := exactly_uses ":" (by decide)
  have spaces (least : Nat) : (tabsOrSpaces least).Uses Numeral := by
    intro c space
    simp only [Bool.or_eq_true, beq_iff_eq] at space
    rcases space with rfl | rfl <;> decide
  have zone : zone.Uses Numeral :=
    ⟨spaces 0, exactly_uses "Z" (by decide), ⟨sign_mark_uses, either⟩, ⟨colon, two⟩, trivial⟩
  have parting : (one fun c => c == 'T' || c == 't').Uses Numeral := by
    intro c letter
    simp only [Bool.or_eq_true, beq_iff_eq] at letter
    rcases letter with rfl | rfl <;> decide
  have clock : clock.Uses Numeral :=
    ⟨⟨⟨⟨⟨⟨⟨⟨parting, spaces 1⟩, either⟩, colon⟩, two⟩, colon⟩, two⟩,
      ⟨exactly_uses "." (by decide), numeral_of_digit⟩, trivial⟩, zone, trivial⟩
  have day : (fourDigits ++ "-" ++ twoDigits ++ "-" ++ twoDigits).Uses Numeral :=
    ⟨⟨⟨⟨four, dash⟩, two⟩, dash⟩, two⟩
  have moment : (fourDigits ++ "-" ++ oneOrTwo ++ "-" ++ oneOrTwo ++ Tag.clock).Uses Numeral :=
    ⟨⟨⟨⟨⟨four, dash⟩, either⟩, dash⟩, either⟩, clock⟩
  rcases match_either _ _ s found with first | second
  · exact whole_match_uses _ day s first
  · exact whole_match_uses _ moment s second

-- A text with a character that no number and no time has is a word, empty, or a text.
theorem of_plain_strange (s : Text) (c : Char) (member : c ∈ s) (strange : isNumeral c = false)
    (other : boolWords.contains s = false) (filled : nullWords.contains s = false) (merges : s ≠ "<<".toList)
    (equals : s ≠ "=".toList) : ofPlain s = text := by
  have unlike (found : ∀ c ∈ s, isNumeral c = true) : False :=
    Bool.noConfusion ((found c member).symm.trans strange)
  have float : (floatForm.matchStart s).isSome = false :=
    Bool.eq_false_iff.2 fun found => unlike (float_form_numeral s found)
  have int : (intForm.matchStart s).isSome = false :=
    Bool.eq_false_iff.2 fun found => unlike (int_form_numeral s found)
  have time : (timeForm.matchStart s).isSome = false :=
    Bool.eq_false_iff.2 fun found => unlike (time_form_numeral s found)
  unfold ofPlain
  rw [other, float, int, filled, time, if_neg merges, if_neg equals]
  rfl

-- A number and what it counts make a text.
theorem of_plain_unit (d : Char) (digits : Text) (unit : String) (digit : Text.isAsciiDigit d = true)
    (strange : unit.toList.any (fun c => !isNumeral c) = true) : ofPlain (d :: digits ++ unit.toList) = text := by
  obtain ⟨c, member, outside⟩ := List.any_eq_true.1 strange
  have first (words : List Text) (none : words.all (fun w => !w.head?.any Text.isAsciiDigit) = true)
      (t : Text) (among : t ∈ words) : d :: digits ++ unit.toList ≠ t := by
    rintro rfl
    have wrong := List.all_eq_true.1 none _ among
    simp [digit] at wrong
  have apart (words : List Text) (none : words.all (fun w => !w.head?.any Text.isAsciiDigit) = true) :
      words.contains (d :: digits ++ unit.toList) = false := by
    rw [Bool.eq_false_iff]
    intro held
    rw [List.contains_iff_mem] at held
    exact first words none _ held rfl
  refine of_plain_strange _ c (List.mem_append.2 (.inr member)) (by simpa using outside) (apart _ (by decide))
    (apart _ (by decide)) ?_ ?_
  · exact first ["<<".toList] (by decide) _ List.mem_cons_self
  · exact first ["=".toList] (by decide) _ List.mem_cons_self

theorem start_not_digit (x : Char) (start : Text.isIdentifierStart x = true) : Text.isAsciiDigit x = false := by
  rw [Bool.eq_false_iff]
  intro digit
  simp only [Text.isAsciiDigit, Text.isIdentifierStart, Text.isAsciiLetter, Bool.and_eq_true, Bool.or_eq_true,
    decide_eq_true_eq, beq_iff_eq, Char.le_def, UInt32.le_iff_toNat_le] at digit start
  rcases start with (⟨low, -⟩ | ⟨low, -⟩) | rfl
  · exact absurd (Nat.le_trans low digit.2) (by decide)
  · exact absurd (Nat.le_trans low digit.2) (by decide)
  · exact absurd digit.2 (by decide)

theorem run_append {α : Type} (a b : Pattern) (here : Place) (caught : Captures)
    (next : Place → Captures → Option α) :
    (a ++ b).run here caught next = a.run here caught fun there caught => b.run there caught next := rfl

-- Numbers and times begin with a digit, a sign or a dot.
theorem forms_of_start (x : Char) (r : Text) (start : Text.isIdentifierStart x = true) :
    floatForm.matchStart (x :: r) = none ∧ intForm.matchStart (x :: r) = none ∧
      timeForm.matchStart (x :: r) = none := by
  have unlike (y : Char) (other : Text.isIdentifierStart y = false) : x ≠ y := by
    rintro rfl
    exact Bool.noConfusion (start.symm.trans other)
  have digit := start_not_digit x start
  have plus : (x == '+') = false := by simp [unlike '+' (by decide)]
  have minus : (x == '-') = false := by simp [unlike '-' (by decide)]
  have dot : '.' ≠ x := Ne.symm (unlike '.' (by decide))
  have zero : '0' ≠ x := Ne.symm (unlike '0' (by decide))
  have positive : ¬ ('1' ≤ x ∧ x ≤ '9') := by
    intro within
    have digit' : Text.isAsciiDigit x = true := by
      simp only [Text.isAsciiDigit, Bool.and_eq_true, decide_eq_true_eq]
      exact ⟨Char.le_trans (by decide) within.1, within.2⟩
    exact Bool.noConfusion (digit'.symm.trans digit)
  refine ⟨?_, ?_, ?_⟩
  · simp [matchStart, matchAt, Place.start, floatForm, run_append, anyOf, sign, signMark, Pattern.optional, run,
      lowDigits, digit, List.isPrefixOf, plus, minus, dot]
  · simp [matchStart, matchAt, Place.start, intForm, run_append, anyOf, sign, signMark, Pattern.optional, run,
      List.isPrefixOf, plus, minus, zero, Tag.positive, positive]
  · simp [matchStart, matchAt, Place.start, timeForm, run_append, run, fourDigits, Tag.digit, digit]

-- An identifier is a truth word, the null word or a text.
theorem of_plain_identifier (name : Text) (identifier : Text.isIdentifier name = true) :
    (name ∈ boolWords ∧ ofPlain name = bool) ∨ ofPlain name = null ∨ ofPlain name = text := by
  obtain ⟨nonempty, -⟩ := identifier_chars name identifier
  obtain ⟨x, r, rfl⟩ := List.exists_cons_of_ne_nil nonempty
  have start : Text.isIdentifierStart x = true := by
    simp only [Text.isIdentifier, Bool.and_eq_true] at identifier
    exact identifier.1
  obtain ⟨float, int, time⟩ := forms_of_start x r start
  have merges : x :: r ≠ "<<".toList := by
    rintro same
    obtain ⟨rfl, -⟩ := List.cons.inj same
    cases start
  have equals : x :: r ≠ "=".toList := by
    rintro same
    obtain ⟨rfl, -⟩ := List.cons.inj same
    cases start
  unfold ofPlain
  rw [float, int, time, if_neg merges, if_neg equals]
  by_cases word : boolWords.contains (x :: r) = true
  · exact .inl ⟨List.contains_iff_mem.1 word, if_pos word⟩
  · by_cases empty : nullWords.contains (x :: r) = true
    · refine .inr (.inl ?_)
      rw [if_neg word, if_pos empty]
      rfl
    · refine .inr (.inr ?_)
      rw [if_neg word, if_neg empty]
      rfl

end Tag

theorem truth_words_read : ∀ w ∈ Tag.boolWords, (Scalar.bool w).isOk = true := by decide

-- An identifier without quotes is a value of its own that a key can have.
theorem identifier_value (name : Text) (identifier : Text.isIdentifier name = true) :
    Tag.ofPlain name ≠ .merge ∧ Tag.ofPlain name ≠ .default ∧
      ∃ v, Scalar.value (Tag.ofPlain name) name = .ok v ∧ v.unhashable? = none := by
  rcases Tag.of_plain_identifier name identifier with ⟨word, same⟩ | same | same
  · have read := truth_words_read name word
    rw [same]
    refine ⟨by decide, by decide, ?_⟩
    cases value : Scalar.bool name with
    | error f =>
      rw [value] at read
      cases read
    | ok b => exact ⟨.bool b, by simp [Scalar.value, value, Except.map], rfl⟩
  · rw [same]
    exact ⟨by decide, by decide, .null, rfl, rfl⟩
  · rw [same]
    exact ⟨by decide, by decide, .text name, rfl, rfl⟩

end PipelineMigration.Yaml
