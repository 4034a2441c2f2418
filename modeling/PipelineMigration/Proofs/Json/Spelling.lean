import PipelineMigration.Json.Reader
import PipelineMigration.Json.Writer
import PipelineMigration.Proofs.Number.Literal
import Mathlib.Tactic.IntervalCases
set_option autoImplicit false

/- How texts and numbers are spelt in JSON: what is written of them is read back as they are. -/
namespace PipelineMigration.Json

section Quoted

theorem hex_digits_four {n : Nat} (small : n < 0x10000) : Text.hexDigits 4 n =
    [Nat.digitChar (n / 4096), Nat.digitChar (n / 256 % 16), Nat.digitChar (n / 16 % 16), Nat.digitChar (n % 16)] := by
  have up {m : Nat} (large : ¬ m < 16) : Nat.toDigits 16 m = Nat.toDigits 16 (m / 16) ++ [Nat.digitChar (m % 16)] := by
    rw [Nat.toDigits_eq_if (by decide), if_neg large]
  unfold Text.hexDigits
  by_cases one : n < 16
  · have zeros : n / 4096 = 0 ∧ n / 256 % 16 = 0 ∧ n / 16 % 16 = 0 ∧ n % 16 = n := by omega
    rw [Nat.toDigits_of_lt_base one, zeros.1, zeros.2.1, zeros.2.2.1, zeros.2.2.2]
    rfl
  by_cases two : n / 16 < 16
  · have zeros : n / 4096 = 0 ∧ n / 256 % 16 = 0 ∧ n / 16 % 16 = n / 16 := by omega
    rw [up one, Nat.toDigits_of_lt_base two, zeros.1, zeros.2.1, zeros.2.2]
    rfl
  by_cases three : n / 16 / 16 < 16
  · have zeros : n / 4096 = 0 ∧ n / 256 % 16 = n / 16 / 16 := by omega
    rw [up one, up two, Nat.toDigits_of_lt_base three, zeros.1, zeros.2]
    rfl
  · have four : n / 16 / 16 / 16 < 16 := by omega
    have parts : n / 4096 = n / 16 / 16 / 16 ∧ n / 256 % 16 = n / 16 / 16 % 16 := by omega
    rw [up one, up two, up three, Nat.toDigits_of_lt_base four, parts.1, parts.2]
    rfl

theorem hex_value_digit {d : Nat} (small : d < 16) : hexValue? (Nat.digitChar d) = some d := by
  interval_cases d <;> rfl

theorem code_unit_read {n : Nat} (small : n < 0x10000) (e : Char) (r : Text) :
    codeUnit? (Text.hexDigits 4 n ++ e :: r) = some (n, e :: r) := by
  have value (d : Nat) : hexValue? (Nat.digitChar (d % 16)) = some (d % 16) :=
    hex_value_digit (Nat.mod_lt d (by decide))
  have first : hexValue? (Nat.digitChar (n / 4096)) = some (n / 4096) := hex_value_digit (by omega)
  rw [hex_digits_four small]
  simp only [codeUnit?, List.cons_append, List.nil_append, first, value, Option.bind_eq_bind, Option.bind_some]
  congr 2
  omega

variable {c : Char}

theorem char_range (c : Char) : c.toNat < 0xd800 ∨ 0xe000 ≤ c.toNat ∧ c.toNat < 0x110000 := by
  rcases c.valid with low | high
  · exact .inl low
  · exact .inr ⟨high.1, high.2⟩

-- A character is read back from its code unit or its two code units.
theorem code_escape_read (small : c.toNat < 0x10000) (e : Char) (r : Text) :
    codeEscape (Text.hexDigits 4 c.toNat ++ e :: r) = .ok (c, e :: r) := by
  have range := char_range c
  have high : (decide (0xd800 ≤ c.toNat) && decide (c.toNat < 0xdc00)) = false := by simp; omega
  have low : (decide (0xdc00 ≤ c.toNat) && decide (c.toNat < 0xe000)) = false := by simp; omega
  simp [codeEscape, code_unit_read small, high, low, Char.ofNat_toNat]

theorem code_escape_pair {high low : Nat} (upper : 0xd800 ≤ high ∧ high < 0xdc00) (lower : 0xdc00 ≤ low ∧ low < 0xe000)
    (e : Char) (r : Text) : codeEscape (Text.hexDigits 4 high ++ '\\' :: 'u' :: (Text.hexDigits 4 low ++ e :: r)) =
      .ok (Char.ofNat (0x10000 + (high - 0xd800) * 0x400 + (low - 0xdc00)), e :: r) := by
  have first : (decide (0xd800 ≤ high) && decide (high < 0xdc00)) = true := by simp [upper]
  have second : (decide (0xdc00 ≤ low) && decide (low < 0xe000)) = true := by simp [lower]
  have unit := code_unit_read (n := low) (by omega) e r
  simp only [codeEscape, code_unit_read (n := high) (by omega), first, unit, second, if_true]

theorem text_body_code (opened : Text) (fuel : Nat) {c : Char} {s rest : Text} (read : codeEscape s = .ok (c, rest)) :
    textBody opened (fuel + 1) ('\\' :: 'u' :: s) = (textBody opened fuel rest).map fun (t, r) => (c :: t, r) := by
  rw [textBody, read]
  rfl

theorem text_body_plain (opened : Text) (fuel : Nat) {c : Char} (above : 32 ≤ c.toNat) (quote : c ≠ '"')
    (slash : c ≠ '\\') (r : Text) : textBody opened (fuel + 1) (c :: r) = (textBody opened fuel r).map fun (t, r) => (c :: t, r) := by
  rw [textBody, if_neg (Nat.not_lt_of_le above)]
  · rfl
  all_goals
    intros
    simp_all

theorem text_body_letter (opened : Text) (fuel : Nat) {k c : Char} (letter : k ≠ 'u')
    (known : Keyed.get? k escapes = some c) (r : Text) :
    textBody opened (fuel + 1) ('\\' :: k :: r) = (textBody opened fuel r).map fun (t, rest) => (c :: t, rest) := by
  rw [textBody, known]
  · rfl
  · intros
    simp_all

theorem short_escape_letter {s : Text} (short : shortEscape? c = some s) :
    ∃ k, s = ['\\', k] ∧ k ≠ 'u' ∧ Keyed.get? k escapes = some c := by
  unfold shortEscape? at short
  simp only [beq_iff_eq] at short
  split_ifs at short
  all_goals
    subst c
    obtain rfl := Option.some.inj short
    exact ⟨_, rfl, by decide, rfl⟩

theorem short_escape_none (none : shortEscape? c = none) : c ≠ '"' ∧ c ≠ '\\' := by
  constructor <;> rintro rfl <;> cases none

theorem unit_escape_append (n : Nat) (r : Text) : unitEscape n ++ r = '\\' :: 'u' :: (Text.hexDigits 4 n ++ r) := by
  simp [unitEscape]

-- A character is read back from its escaped form, something standing behind it.
theorem escape_read (opened : Text) (fuel : Nat) (c e : Char) (r : Text) :
    textBody opened (fuel + 1) (escapeChar c ++ e :: r) =
      (textBody opened fuel (e :: r)).map fun (t, rest) => (c :: t, rest) := by
  unfold escapeChar
  cases short : shortEscape? c with
  | some s =>
    obtain ⟨k, rfl, letter, known⟩ := short_escape_letter short
    exact text_body_letter opened fuel letter known (e :: r)
  | none =>
    obtain ⟨quote, slash⟩ := short_escape_none short
    dsimp only
    by_cases plain : (decide (32 ≤ c.toNat) && decide (c.toNat < 127)) = true
    · rw [if_pos plain]
      exact text_body_plain opened fuel (of_decide_eq_true (Bool.and_eq_true_iff.1 plain).1) quote slash (e :: r)
    rw [if_neg plain]
    by_cases small : c.toNat < 0x10000
    · rw [if_pos small, unit_escape_append]
      exact text_body_code opened fuel (code_escape_read small e r)
    · have range := char_range c
      rw [if_neg small, List.append_assoc]
      generalize high : 0xd800 + (c.toNat - 0x10000) / 0x400 = first
      generalize low : 0xdc00 + (c.toNat - 0x10000) % 0x400 = second
      have joined : 0x10000 + (first - 0xd800) * 0x400 + (second - 0xdc00) = c.toNat := by omega
      have upper : 0xd800 ≤ first ∧ first < 0xdc00 := by omega
      have lower : 0xdc00 ≤ second ∧ second < 0xe000 := by omega
      have pair := code_escape_pair upper lower e r
      rw [joined, Char.ofNat_toNat] at pair
      rw [unit_escape_append, unit_escape_append]
      exact text_body_code opened fuel pair

theorem text_read (opened : Text) {fuel : Nat} {s : Text} (rest : Text) (enough : s.length < fuel) :
    textBody opened fuel (s.flatMap escapeChar ++ '"' :: rest) = .ok (s, rest) := by
  obtain ⟨fuel, rfl⟩ := Nat.exists_eq_add_one.2 (Nat.zero_lt_of_lt enough)
  induction s generalizing fuel with
  | nil => rfl
  | cons c s ih =>
    rw [List.length_cons] at enough
    obtain ⟨fuel, rfl⟩ := Nat.exists_eq_add_one.2 (Nat.zero_lt_of_lt (Nat.lt_of_succ_lt_succ enough))
    have next := ih fuel (Nat.lt_of_succ_lt_succ enough)
    rw [List.flatMap_cons, List.append_assoc]
    obtain ⟨e, r, behind⟩ : ∃ e r, s.flatMap escapeChar ++ '"' :: rest = e :: r :=
      List.exists_cons_of_ne_nil (List.append_ne_nil_of_right_ne_nil _ (List.cons_ne_nil _ _))
    rw [behind] at next ⊢
    rw [escape_read, next]
    rfl

theorem escape_filled (c : Char) : escapeChar c ≠ [] := by
  intro none
  have read := escape_read [] 1 c '"' []
  rw [none] at read
  cases read

theorem escapes_length (s : Text) : s.length ≤ (s.flatMap escapeChar).length := by
  induction s with
  | nil => exact Nat.le_refl 0
  | cons c s ih =>
    have some := List.length_pos_iff.2 (escape_filled c)
    rw [List.length_cons, List.flatMap_cons, List.length_append]
    omega

theorem quoted_append (s rest : Text) : quoted s ++ rest = '"' :: (s.flatMap escapeChar ++ '"' :: rest) := by
  simp [quoted, quotedWith]

theorem quoted_read (opened s rest : Text) :
    textBody opened ((s.flatMap escapeChar ++ '"' :: rest).length + 1) (s.flatMap escapeChar ++ '"' :: rest) =
      .ok (s, rest) := by
  have length := escapes_length s
  refine text_read opened rest ?_
  rw [List.length_append]
  omega

end Quoted

/-- A text that may stand behind a value: it is empty or begins with a comma or a new line. -/
def Closes (rest : Text) : Prop := ∀ c ∈ rest.head?, c = ',' ∨ c = '\n'

section Numeral

open Number Literal

variable {l : Literal} {rest : Text}

theorem whole_part_read (proper : l.Proper) (ends : ∀ c ∈ rest.head?, Text.isAsciiDigit c = false) :
    wholePart? (l.whole ++ rest) = some (l.whole, rest) := by
  obtain ⟨c, r, whole⟩ := List.exists_cons_of_ne_nil proper.filled
  by_cases zero : c = '0'
  · rw [zero] at whole
    have only := proper.leads (by rw [whole]; rfl)
    rw [only]
    rfl
  · obtain ⟨taken, left⟩ := Text.run_taken proper.whole ends
    unfold wholePart?
    split
    · rename_i same
      rw [whole] at same
      exact absurd (List.cons.inj same).1 zero
    · rw [taken, left, if_neg]
      simpa using proper.filled

theorem fraction_part_read (proper : l.Proper) (ends : ∀ c ∈ rest.head?, Text.isAsciiDigit c = false ∧ c ≠ '.') :
    fractionPart (l.fractionText ++ rest) = (l.fractionText, rest) := by
  unfold fractionText
  by_cases none : l.fraction = []
  · rw [none]
    change fractionPart rest = ([], rest)
    unfold fractionPart
    split
    · exact absurd rfl (ends '.' rfl).2
    · rfl
  · obtain ⟨taken, left⟩ := Text.run_taken proper.fraction fun c first => (ends c first).1
    have filled : ¬ l.fraction.isEmpty = true := by simpa using none
    rw [if_neg filled, List.cons_append, fractionPart, taken, left, if_neg filled]

theorem exponent_part_read (proper : l.Proper) (closed : Closes rest) :
    exponentPart (l.powerText ++ rest) = (l.powerText, rest) := by
  unfold powerText
  cases power : l.power with
  | none =>
    cases rest with
    | nil => rfl
    | cons c r => rcases closed c rfl with rfl | rfl <;> rfl
  | some p =>
    obtain ⟨negative, digits⟩ := p
    obtain ⟨filled, ascii⟩ := proper.power _ power
    have ends : ∀ c ∈ rest.head?, Text.isAsciiDigit c = false := fun c first => by
      rcases closed c first with rfl | rfl <;> rfl
    obtain ⟨taken, left⟩ := Text.run_taken ascii ends
    cases negative <;> simp [exponentPart, taken, left, filled]

-- A literal in front of a closing text is taken apart into its parts.
theorem literal_taken (proper : l.Proper) (closed : Closes rest) : ∃ body behindWhole behindFraction,
    l.text ++ rest = l.sign ++ body ∧ (∀ r, body ≠ '-' :: r) ∧ wholePart? body = some (l.whole, behindWhole) ∧
      fractionPart behindWhole = (l.fractionText, behindFraction) ∧
      exponentPart behindFraction = (l.powerText, rest) := by
  have power : ∀ c ∈ (l.powerText ++ rest).head?, c = 'e' ∨ c = ',' ∨ c = '\n' := by
    rw [List.head?_append]
    cases first : l.powerText.head? with
    | none => exact fun c stop => .inr (closed c stop)
    | some c =>
      rintro d ⟨⟩
      exact .inl (power_mark l c first)
  have fraction : ∀ c ∈ (l.fractionText ++ (l.powerText ++ rest)).head?, Text.isAsciiDigit c = false := by
    unfold fractionText
    split
    · intro c first
      rcases power c first with rfl | rfl | rfl <;> rfl
    · rintro c ⟨⟩
      rfl
  refine ⟨_, _, _, ?_, ?_, whole_part_read proper fraction, fraction_part_read proper fun c first => ?_,
    exponent_part_read proper closed⟩
  · simp [Literal.text]
  · obtain ⟨c, r, whole⟩ := List.exists_cons_of_ne_nil proper.filled
    intro t minus
    rw [whole] at minus
    have digit := proper.whole c (by simp [whole])
    rw [(List.cons.inj minus).1] at digit
    cases digit
  · rcases power c first with rfl | rfl | rfl <;> decide

theorem number_whole (proper : l.Proper) (whole : ¬ l.IsReal) (short : l.whole.length ≤ digitLimit)
    (closed : Closes rest) :
    number (l.text ++ rest) = .ok (int (if l.negative then -(valueOf l.whole : Int) else valueOf l.whole), rest) := by
  obtain ⟨fraction, power⟩ := not_or.1 whole
  have none : l.fractionText = [] ∧ l.powerText = [] := by
    simp only [ne_eq, not_not] at fraction power
    simp [fractionText, powerText, fraction, power]
  have read := read_signed proper.filled proper.whole short l.negative
  obtain ⟨body, _, _, text, unsigned, first, second, third⟩ := literal_taken proper closed
  rw [text]
  unfold Literal.sign
  cases sign : l.negative with
  | false => simp_all [number]
  | true => simp_all [number]

theorem number_real (proper : l.Proper) (real : l.IsReal) (closed : Closes rest) :
    number (l.text ++ rest) = .ok (float (signed l.negative (ofScientific l.count l.exponent)), rest) := by
  have some : ¬ (l.fractionText = [] ∧ l.powerText = []) := by
    unfold fractionText powerText
    rcases real with fraction | power
    · simp [fraction]
    · cases same : l.power with
      | none => exact absurd same power
      | some p => simp
  have read := read_literal proper
  obtain ⟨body, _, _, text, unsigned, first, second, third⟩ := literal_taken proper closed
  rw [text]
  unfold Literal.text Literal.sign at *
  cases sign : l.negative with
  | false => simp_all [number]
  | true => simp_all [number]

theorem literal_begins (proper : l.Proper) : ∃ c r, l.text = l.sign ++ c :: r ∧ Text.isAsciiDigit c = true := by
  obtain ⟨c, r, body, digit⟩ := body_begins proper
  exact ⟨c, r, by simp [Literal.text, ← body], digit⟩

theorem digit_not_mem {c : Char} {s : Text} (digit : Text.isAsciiDigit c = true)
    (letters : ∀ d ∈ s, Text.isAsciiDigit d = false) : c ∉ s := by
  intro member
  rw [letters c member] at digit
  cases digit

theorem scalar_literal (proper : l.Proper) (rest : Text) : scalar (l.text ++ rest) = number (l.text ++ rest) := by
  obtain ⟨c, r, text, digit⟩ := literal_begins proper
  have other : c ∉ ['n', 't', 'f', 'N', 'I', '-'] := digit_not_mem digit (by decide)
  simp only [List.mem_cons, List.not_mem_nil, or_false, not_or] at other
  have unlisted : words.find? (fun w => w.1.isPrefixOf (l.text ++ rest)) = none := by
    rw [text]
    unfold Literal.sign
    cases l.negative with
    | false => simp [words, other, @eq_comm _ _ c]
    | true => simp [words, other, @eq_comm _ _ c]
  unfold scalar
  split
  · rename_i found
    cases found.symm.trans unlisted
  · rfl

end Numeral

/-- A text that is read as the value, whatever closing text stands behind it. -/
structure Spells (t : Text) (v : Json) : Prop where
  begins : ∃ c r, t = c :: r ∧ isSpace c = false ∧ c ≠ ']'
  read : ∀ {rest : Text}, Closes rest → ∀ {fuel : Nat}, (t ++ rest).length < fuel →
    value fuel (t ++ rest) = .ok (v, rest)

section Scalar

theorem spells_scalar {t : Text} {v : Json} (front : ∀ c ∈ t.head?, c ∉ [' ', '\t', '\n', '\r', '"', '\x7b', '[', ']'])
    (filled : t ≠ []) (read : ∀ {rest : Text}, Closes rest → scalar (t ++ rest) = .ok (v, rest)) : Spells t v := by
  obtain ⟨c, r, rfl⟩ := List.exists_cons_of_ne_nil filled
  have other := front c rfl
  simp only [List.mem_cons, List.not_mem_nil, or_false, not_or] at other
  refine ⟨⟨c, r, rfl, by simp [isSpace, other], other.2.2.2.2.2.2.2⟩, fun {rest} closed {fuel} enough => ?_⟩
  obtain ⟨fuel, rfl⟩ := Nat.exists_eq_add_one.2 (Nat.zero_lt_of_lt enough)
  have found := read closed
  simp_all [value]

theorem spells_quoted (s : Text) : Spells (quoted s) (string s) := by
  refine ⟨⟨'"', s.flatMap escapeChar ++ ['"'], rfl, rfl, by decide⟩, fun {rest} _ {fuel} enough => ?_⟩
  obtain ⟨fuel, rfl⟩ := Nat.exists_eq_add_one.2 (Nat.zero_lt_of_lt enough)
  rw [quoted_append, value, quoted_read]
  rfl

theorem spells_word {word : Text} {v : Json} (listed : (word, v) ∈ words) : Spells word v := by
  simp only [words, List.mem_cons, List.not_mem_nil, or_false, Prod.mk.injEq] at listed
  rcases listed with ⟨rfl, rfl⟩ | ⟨rfl, rfl⟩ | ⟨rfl, rfl⟩ | ⟨rfl, rfl⟩ | ⟨rfl, rfl⟩ | ⟨rfl, rfl⟩
  all_goals exact spells_scalar (by simp) (by simp) fun _ => rfl

theorem spells_literal {l : Number.Literal} {v : Json} (proper : l.Proper)
    (read : ∀ {rest : Text}, Closes rest → number (l.text ++ rest) = .ok (v, rest)) : Spells l.text v := by
  obtain ⟨c, r, text, digit⟩ := literal_begins proper
  refine spells_scalar ?_ ?_ fun closed => (scalar_literal proper _).trans (read closed)
  · rw [text]
    unfold Number.Literal.sign
    cases l.negative with
    | false =>
      rintro d ⟨⟩
      exact digit_not_mem digit (by decide)
    | true =>
      rintro d ⟨⟩
      decide
  · rw [text]
    simp

-- A whole number that is short enough to be read.
theorem spells_integer {n : Int} (fits : Number.Fits n) : Spells (Text.ofInt n) (int n) := by
  have short : (Text.ofNat n.natAbs).length ≤ Number.digitLimit := by
    have some : 0 < Number.digitLimit := by decide
    unfold Number.Fits at fits
    generalize Number.digitLimit = limit at fits some
    exact (Nat.length_toDigits_le_iff (by decide) some).2 fits
  have value := Number.value_number n.natAbs
  let l : Number.Literal := ⟨decide (n < 0), Text.ofNat n.natAbs, [], none⟩
  have proper : l.Proper := by
    refine ⟨Nat.toDigits_ne_nil, fun zero => ?_, Text.number_digit _, nofun, nofun⟩
    by_cases none : n.natAbs = 0
    · change Text.ofNat n.natAbs = _
      rw [none]
      rfl
    · exact absurd zero (Text.number_leads _ (Nat.pos_of_ne_zero none))
  have text : l.text = Text.ofInt n := by
    cases n <;> simp [l, Number.Literal.text, Number.Literal.sign, Number.Literal.fractionText, Number.Literal.powerText,
      Text.ofInt]
  rw [← text]
  refine spells_literal proper fun closed => ?_
  rw [number_whole proper (by simp [Number.Literal.IsReal, l]) short closed, value]
  simp only [l, decide_eq_true_eq]
  congr 3
  omega

theorem spells_float (x : Float) : Spells (floatLiteral x) (float x) := by
  unfold floatLiteral
  by_cases nan : x.isNaN = true
  · rw [if_pos nan, Number.nan_double nan]
    exact spells_word (by simp [words, notANumber])
  rw [if_neg nan]
  by_cases infinite : x.isInf = true
  · rw [if_pos infinite]
    have double := Number.infinite_double infinite
    by_cases negative : x < 0
    · rw [if_pos negative] at double ⊢
      rw [double]
      exact spells_word (by simp [words, infinity, Number.magnitude, Number.infinityCode])
    · rw [if_neg negative] at double ⊢
      rw [double]
      exact spells_word (by simp [words, infinity, Number.magnitude, Number.infinityCode])
  rw [if_neg infinite]
  cases known : Number.dyadic? x with
  | some d =>
    obtain ⟨l, proper, real, text, value⟩ := Number.float_text_literal known
    rw [← text]
    refine spells_literal proper fun closed => ?_
    rw [number_real proper real closed, value]
  | none =>
    rcases Number.not_finite_double known with other | other
    · exact absurd other nan
    · exact absurd other infinite

end Scalar
end PipelineMigration.Json
