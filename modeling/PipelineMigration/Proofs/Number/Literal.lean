import PipelineMigration.Proofs.Number.Numeral
import PipelineMigration.Proofs.Number.Shortest
import PipelineMigration.Proofs.Text.Trim
set_option autoImplicit false

/- Numbers written in decimal, with a fraction and an exponent. The text of a double is one of them, and it is read as
   that double. -/
namespace PipelineMigration.Number

open Text (isAsciiDigit)

structure Literal where
  negative : Bool
  whole : Text
  fraction : Text
  /-- Whether the exponent is negative, and its digits. -/
  power : Option (Bool × Text)

def signed (negative : Bool) (x : Float) : Float := if negative then -x else x

namespace Literal

variable {l : Literal}

def sign (l : Literal) : Text := if l.negative then ['-'] else []

def fractionText (l : Literal) : Text := if l.fraction.isEmpty then [] else '.' :: l.fraction

def powerText (l : Literal) : Text :=
  match l.power with
  | none => []
  | some (negative, digits) => 'e' :: (if negative then '-' else '+') :: digits

def text (l : Literal) : Text := l.sign ++ l.whole ++ l.fractionText ++ l.powerText

def count (l : Literal) : Nat := valueOf (l.whole ++ l.fraction)

def exponent (l : Literal) : Int :=
  -(l.fraction.length : Int) + match l.power with
    | none => 0
    | some (negative, digits) => if negative then -(valueOf digits : Int) else valueOf digits

/-- Digits everywhere, and a leading zero only where it is the whole part. -/
structure Proper (l : Literal) : Prop where
  filled : l.whole ≠ []
  leads : l.whole.head? = some '0' → l.whole = ['0']
  whole : ∀ c ∈ l.whole, isAsciiDigit c = true
  fraction : ∀ c ∈ l.fraction, isAsciiDigit c = true
  power : ∀ p ∈ l.power, p.2 ≠ [] ∧ ∀ c ∈ p.2, isAsciiDigit c = true

/-- Whether it is more than a whole number. -/
def IsReal (l : Literal) : Prop := l.fraction ≠ [] ∨ l.power ≠ none

/-- The characters that a literal is made of. -/
def isPart (c : Char) : Bool := isAsciiDigit c || c == '-' || c == '+' || c == '.' || c == 'e'

theorem digit_part {c : Char} (digit : isAsciiDigit c = true) : isPart c = true := by
  simp [isPart, digit]

theorem text_parts (proper : l.Proper) : ∀ c ∈ l.text, isPart c = true := by
  have sign : ∀ c ∈ l.sign, isPart c = true := by
    unfold Literal.sign
    split <;> simp [isPart]
  have fraction : ∀ c ∈ l.fractionText, isPart c = true := by
    unfold fractionText
    split
    · simp
    · exact List.forall_mem_cons.2 ⟨rfl, fun c member => digit_part (proper.fraction c member)⟩
  have power : ∀ c ∈ l.powerText, isPart c = true := by
    unfold powerText
    cases power : l.power with
    | none => simp
    | some p =>
      obtain ⟨negative, digits⟩ := p
      have digit := (proper.power _ power).2
      refine List.forall_mem_cons.2 ⟨rfl, List.forall_mem_cons.2 ⟨?_, fun c member => digit_part (digit c member)⟩⟩
      cases negative <;> rfl
  simp only [text, List.forall_mem_append]
  exact ⟨⟨⟨sign, fun c member => digit_part (proper.whole c member)⟩, fraction⟩, power⟩

theorem part_plain {c : Char} (part : isPart c = true) :
    isPadding c = false ∧ toAsciiDigit c = c ∧ c ≠ '_' := by
  have all : ∀ n : Fin 128, (!isPart (Char.ofNat n) || (!isPadding (Char.ofNat n) &&
      toAsciiDigit (Char.ofNat n) == Char.ofNat n && Char.ofNat n != '_')) = true := by decide
  have ascii : c.toNat < 128 := by
    simp only [isPart, Bool.or_eq_true, beq_iff_eq] at part
    rcases part with (((digit | rfl) | rfl) | rfl) | rfl
    · exact Text.digit_ascii digit
    all_goals decide
  have held := all ⟨c.toNat, ascii⟩
  simpa [Char.ofNat_toNat, part, and_assoc] using held

end Literal

section Reading

variable {l : Literal}

theorem drop_no_underscores {s : Text} (none : '_' ∉ s) {last : Char} (other : last ≠ '_') :
    dropUnderscores last s = some s := by
  induction s generalizing last with
  | nil => simp [dropUnderscores, other]
  | cons c r ih =>
    obtain ⟨here, later⟩ := not_or.1 (mt List.mem_cons.2 none)
    have next := ih later (Ne.symm here)
    simp [dropUnderscores, Ne.symm here, other, next]

theorem span_digits {digits rest : Text} (ascii : ∀ c ∈ digits, isAsciiDigit c = true)
    (ends : ∀ c ∈ rest.head?, isAsciiDigit c = false) :
    spanDigits (digits ++ rest) = (digits.map (·.toNat - 48), rest) := by
  obtain ⟨taken, left⟩ := Text.run_taken ascii ends
  rw [spanDigits, taken, left]

theorem span_all {digits : Text} (ascii : ∀ c ∈ digits, isAsciiDigit c = true) :
    spanDigits digits = (digits.map (·.toNat - 48), []) := by
  have whole := span_digits ascii (show ∀ c ∈ ([] : Text).head?, isAsciiDigit c = false from nofun)
  rwa [List.append_nil] at whole

theorem word_digit {c : Char} (digit : isAsciiDigit c = true) (r : Text) : word? (c :: r) = none := by
  have all : ∀ n : Fin 128, (!isAsciiDigit (Char.ofNat n) ||
      ((Char.ofNat n).toLower != 'i' && (Char.ofNat n).toLower != 'n')) = true := by decide
  have held := all ⟨c.toNat, Text.digit_ascii digit⟩
  simp only [Char.ofNat_toNat, digit, Bool.not_true, Bool.false_or, Bool.and_eq_true, bne_iff_ne] at held
  simp [word?, held]

theorem exponent_read {negative : Bool} {digits : Text} (filled : digits ≠ [])
    (ascii : ∀ c ∈ digits, isAsciiDigit c = true) :
    exponent? ((if negative then '-' else '+') :: digits) =
      some (if negative then -(valueOf digits : Int) else valueOf digits) := by
  have sign : splitSign ((if negative then '-' else '+') :: digits) = (negative, digits) := by
    cases negative <;> rfl
  obtain ⟨c, r, rfl⟩ := List.exists_cons_of_ne_nil filled
  unfold exponent?
  rw [sign]
  dsimp only
  rw [span_all ascii]
  rfl

theorem power_mark (l : Literal) : ∀ c ∈ l.powerText.head?, c = 'e' := by
  unfold Literal.powerText
  cases l.power with
  | none => nofun
  | some p =>
    rintro c ⟨⟩
    rfl

/-- What an exponent, or the end of the text, makes of the digits before it. -/
def powerRead (n : Nat) (shift : Int) : Text → Option Float
  | [] => some (ofScientific n shift)
  | c :: r => if c == 'e' || c == 'E' then (exponent? r).map fun e => ofScientific n (shift + e) else none

theorem power_read (proper : l.Proper) : powerRead l.count (-(l.fraction.length : Int)) l.powerText =
    some (ofScientific l.count l.exponent) := by
  unfold Literal.powerText Literal.exponent
  cases power : l.power with
  | none => simp [powerRead]
  | some p =>
    obtain ⟨negative, digits⟩ := p
    obtain ⟨filled, ascii⟩ := proper.power _ power
    dsimp only [powerRead]
    rw [exponent_read filled ascii]
    rfl

theorem magnitude_read (proper : l.Proper) :
    magnitude? (l.whole ++ l.fractionText ++ l.powerText) = some (ofScientific l.count l.exponent) := by
  have mark := power_mark l
  have value := power_read proper
  have whole : (l.whole.map (·.toNat - 48)).isEmpty = false := by
    rw [List.isEmpty_map, List.isEmpty_eq_false_iff]
    exact proper.filled
  have count : l.count = ofDigits (l.whole.map (·.toNat - 48) ++ l.fraction.map (·.toNat - 48)) := by
    rw [← List.map_append]
    rfl
  rw [← value, List.append_assoc, count]
  unfold Literal.fractionText
  by_cases none : l.fraction = []
  · rw [none]
    change magnitude? (l.whole ++ l.powerText) = _
    rw [magnitude?, span_digits proper.whole fun c first => mark c first ▸ rfl]
    generalize l.powerText = rest at mark
    cases rest with
    | nil => simp [whole, powerRead]
    | cons c r =>
      obtain rfl := mark c rfl
      simp [whole, powerRead]
  · have fraction := span_digits proper.fraction fun c first => mark c first ▸ rfl
    rw [if_neg (by simpa using none), List.cons_append, magnitude?, span_digits proper.whole (by rintro c ⟨⟩; rfl)]
    generalize l.powerText = rest at fraction
    cases rest with
    | nil => simp [span_all proper.fraction, whole, powerRead]
    | cons c r => simp [fraction, whole, powerRead]

theorem body_begins (proper : l.Proper) :
    ∃ c r, l.whole ++ l.fractionText ++ l.powerText = c :: r ∧ isAsciiDigit c = true := by
  obtain ⟨c, r, whole⟩ := List.exists_cons_of_ne_nil proper.filled
  refine ⟨c, r ++ l.fractionText ++ l.powerText, by rw [whole]; rfl, proper.whole c ?_⟩
  rw [whole]
  exact List.mem_cons_self

-- A literal is read as its value.
theorem read_literal (proper : l.Proper) :
    readFloat? l.text = some (signed l.negative (ofScientific l.count l.exponent)) := by
  have parts := l.text_parts proper
  have unpadded : Text.trimBy isPadding l.text = l.text :=
    Text.trim_by_none fun c member => (Literal.part_plain (parts c member)).1
  have ascii : l.text.map toAsciiDigit = l.text := by
    conv_rhs => rw [← List.map_id l.text]
    exact List.map_congr_left fun c member => (Literal.part_plain (parts c member)).2.1
  have joined : dropUnderscores ' ' l.text = some l.text :=
    drop_no_underscores (fun member => (Literal.part_plain (parts '_' member)).2.2 rfl) (by decide)
  obtain ⟨c, r, body, digit⟩ := body_begins proper
  have sign : splitSign l.text = (l.negative, l.whole ++ l.fractionText ++ l.powerText) := by
    have split : l.text = l.sign ++ (l.whole ++ l.fractionText ++ l.powerText) := by simp [Literal.text]
    rw [split, body, Literal.sign]
    cases l.negative with
    | false => exact split_sign_digit digit r
    | true => rfl
  have word : word? (l.whole ++ l.fractionText ++ l.powerText) = none := by rw [body, word_digit digit]
  unfold readFloat?
  rw [unpadded, ascii, joined, Option.bind_eq_bind, Option.bind_some, sign]
  dsimp only
  rw [word, magnitude_read proper]
  rfl

end Reading
section Layout

theorem value_append (s t : Text) : valueOf (s ++ t) = valueOf s * 10 ^ t.length + valueOf t := by
  have run (ds : List Nat) (n : Nat) : ds.foldl (fun n d => 10 * n + d) n = n * 10 ^ ds.length + ofDigits ds := by
    induction ds generalizing n with
    | nil => simp [ofDigits]
    | cons d rest ih =>
      have front : ofDigits (d :: rest) = (10 * 0 + d) * 10 ^ rest.length + ofDigits rest := ih _
      rw [List.foldl_cons, ih, front, List.length_cons, pow_succ]
      ring
  unfold valueOf
  rw [List.map_append, ofDigits, List.foldl_append, run, List.length_map]
  rfl

theorem value_number (n : Nat) : valueOf (Text.ofNat n) = n := by
  unfold valueOf ofDigits
  rw [List.foldl_map]
  exact Nat.ofDigitChars_toDigits (by decide) (by decide)

theorem value_zeros (k : Nat) : valueOf (List.replicate k '0') = 0 := by
  induction k with
  | zero => rfl
  | succ k ih =>
    rw [List.replicate_succ, ← List.singleton_append, value_append, ih]
    simp [valueOf, ofDigits]

theorem value_padded (width : Nat) (s : Text) : valueOf (padLeft width s) = valueOf s := by
  rw [padLeft, value_append, value_zeros, Nat.zero_mul, Nat.zero_add]

theorem padded_ascii {s : Text} (ascii : ∀ c ∈ s, isAsciiDigit c = true) (width : Nat) :
    ∀ c ∈ padLeft width s, isAsciiDigit c = true := by
  refine List.forall_mem_append.2 ⟨fun c member => ?_, ascii⟩
  rw [List.eq_of_mem_replicate member]
  rfl

theorem padded_length (width : Nat) (s : Text) : (padLeft width s).length = max width s.length := by
  rw [padLeft, List.length_append, List.length_replicate]
  omega

theorem padded_fraction (s : Text) {places : Nat} (some : places ≠ 0) :
    (padLeft (places + 1) s).drop ((padLeft (places + 1) s).length - places) ≠ [] := by
  rw [Ne, List.drop_eq_nil_iff, padded_length]
  omega

/-- The parts of a decimal as it is laid out. -/
def layoutLiteral (negative : Bool) (n : Nat) (e : Int) : Literal :=
  let digits := Text.ofNat n
  let power := (digits.length : Int) - 1 + e
  if -4 ≤ power ∧ power < 16 then
    if 0 ≤ e then ⟨negative, digits ++ List.replicate e.toNat '0', ['0'], none⟩
    else
      let padded := padLeft ((-e).toNat + 1) digits
      ⟨negative, padded.take (padded.length - (-e).toNat), padded.drop (padded.length - (-e).toNat), none⟩
  else ⟨negative, digits.take 1, digits.drop 1, some (power < 0, padLeft 2 (Text.ofNat power.natAbs))⟩

variable {negative : Bool} {n : Nat} {e : Int}

theorem layout_sign : (layoutLiteral negative n e).negative = negative := by
  unfold layoutLiteral
  dsimp only
  split_ifs <;> rfl

theorem layout_text : (layoutLiteral negative n e).text = (if negative then ['-'] else []) ++ layout n e := by
  unfold layoutLiteral layout
  dsimp only
  by_cases near : -4 ≤ ((Text.ofNat n).length : Int) - 1 + e ∧ ((Text.ofNat n).length : Int) - 1 + e < 16
  · rw [if_pos near, if_pos near]
    by_cases whole : 0 ≤ e
    · rw [if_pos whole, if_pos whole]
      simp [Literal.text, Literal.sign, Literal.fractionText, Literal.powerText]
    · rw [if_neg whole, if_neg whole]
      have places : (-e).toNat ≠ 0 := by omega
      have fraction := padded_fraction (Text.ofNat n) places
      simp [Literal.text, Literal.sign, Literal.fractionText, Literal.powerText, pointed, places, fraction]
  · rw [if_neg near, if_neg near]
    have filled : Text.ofNat n ≠ [] := Nat.toDigits_ne_nil
    obtain ⟨c, r, digits⟩ := List.exists_cons_of_ne_nil filled
    rw [digits]
    generalize ((c :: r).length : Int) - 1 + e = power
    by_cases low : power < 0 <;> cases r <;>
      simp [Literal.text, Literal.sign, Literal.fractionText, Literal.powerText, low]

section Layouts

variable {digits : Text} (filled : digits ≠ []) (leads : digits.head? ≠ some '0')
  (ascii : ∀ c ∈ digits, isAsciiDigit c = true)

include filled leads ascii

theorem whole_proper (zeros : Nat) : Literal.Proper ⟨negative, digits ++ List.replicate zeros '0', ['0'], none⟩ := by
  refine ⟨by simp [filled], fun zero => ?_, ?_, List.forall_mem_singleton.2 rfl, nofun⟩
  · rw [List.head?_append_of_ne_nil _ filled] at zero
    exact absurd zero leads
  · refine List.forall_mem_append.2 ⟨ascii, fun c member => ?_⟩
    rw [List.eq_of_mem_replicate member]
    rfl

theorem power_proper (power : Int) : Literal.Proper
    ⟨negative, digits.take 1, digits.drop 1, some (power < 0, padLeft 2 (Text.ofNat power.natAbs))⟩ := by
  obtain ⟨c, r, rfl⟩ := List.exists_cons_of_ne_nil filled
  refine ⟨nofun, fun zero => absurd zero leads, fun d member => ascii d (List.mem_of_mem_take member),
    fun d member => ascii d (List.mem_of_mem_drop member), ?_⟩
  rintro _ ⟨⟩
  exact ⟨by simp [padLeft, Text.ofNat], padded_ascii (Text.number_digit _) 2⟩

omit filled ascii in
-- Padded to one digit more than its places, a number has a leading zero only as its whole part.
theorem padded_leads {places : Nat} {padded : Text} (same : padLeft (places + 1) digits = padded)
    (zero : (padded.take (padded.length - places)).head? = some '0') :
    padded.take (padded.length - places) = ['0'] := by
  have length := padded_length (places + 1) digits
  subst same
  rw [List.head?_take, length] at zero
  rw [length]
  by_cases short : digits.length ≤ places
  · obtain ⟨c, r, cons⟩ := List.exists_cons_of_length_pos (l := padLeft (places + 1) digits) (by omega)
    have one : max (places + 1) digits.length - places = 1 := by omega
    rw [cons, one] at zero
    rw [cons, one, List.take_succ_cons, List.take_zero, Option.some.inj zero]
  · have same : padLeft (places + 1) digits = digits := by
      rw [padLeft, Nat.sub_eq_zero_of_le (by omega), List.replicate_zero, List.nil_append]
    rw [same, if_neg (by omega)] at zero
    exact absurd zero leads

omit filled in
theorem point_proper {places : Nat} {padded : Text} (same : padLeft (places + 1) digits = padded) :
    Literal.Proper ⟨negative, padded.take (padded.length - places), padded.drop (padded.length - places), none⟩ := by
  have all : ∀ c ∈ padded, isAsciiDigit c = true := same ▸ padded_ascii ascii (places + 1)
  have length : padded.length = max (places + 1) digits.length := same ▸ padded_length (places + 1) digits
  refine ⟨?_, padded_leads leads same, fun c member => all c (List.mem_of_mem_take member),
    fun c member => all c (List.mem_of_mem_drop member), nofun⟩
  rw [Ne, ← List.length_eq_zero_iff, List.length_take]
  omega

end Layouts

theorem layout_proper (positive : 0 < n) : (layoutLiteral negative n e).Proper := by
  have filled : Text.ofNat n ≠ [] := Nat.toDigits_ne_nil
  have leads := Text.number_leads n positive
  have ascii := Text.number_digit n
  unfold layoutLiteral
  dsimp only
  split_ifs
  · exact whole_proper filled leads ascii _
  · exact point_proper leads ascii rfl
  · exact power_proper filled leads ascii _

theorem layout_value :
    decimal (layoutLiteral negative n e).count (layoutLiteral negative n e).exponent = decimal n e := by
  have value := value_number n
  have filled : 0 < (Text.ofNat n).length := Nat.length_toDigits_pos
  unfold layoutLiteral
  dsimp only
  generalize Text.ofNat n = digits at value filled
  by_cases near : -4 ≤ (digits.length : Int) - 1 + e ∧ (digits.length : Int) - 1 + e < 16
  · rw [if_pos near]
    by_cases whole : 0 ≤ e
    · rw [if_pos whole]
      have count : valueOf (digits ++ List.replicate e.toNat '0' ++ ['0']) = n * 10 ^ (e.toNat + 1) := by
        rw [List.append_assoc, value_append, value, value_append, value_zeros, List.length_append, List.length_replicate]
        rfl
      dsimp only [Literal.count, Literal.exponent]
      rw [count, decimal_shift, List.length_singleton]
      congr 1
      push_cast
      omega
    · rw [if_neg whole]
      have count : valueOf (padLeft ((-e).toNat + 1) digits) = n := by rw [value_padded, value]
      dsimp only [Literal.count, Literal.exponent]
      rw [List.take_append_drop, count, List.length_drop, padded_length]
      congr 1
      omega
  · rw [if_neg near]
    have power (p : ℤ) : (if p < 0 then -(valueOf (padLeft 2 (Text.ofNat p.natAbs)) : ℤ)
        else valueOf (padLeft 2 (Text.ofNat p.natAbs))) = p := by
      rw [value_padded, value_number]
      omega
    dsimp only [Literal.count, Literal.exponent]
    rw [List.take_append_drop, value, List.length_drop]
    simp only [decide_eq_true_eq, power]
    congr 1
    omega

theorem layout_real : (layoutLiteral negative n e).IsReal := by
  unfold layoutLiteral
  dsimp only
  by_cases near : -4 ≤ ((Text.ofNat n).length : Int) - 1 + e ∧ ((Text.ofNat n).length : Int) - 1 + e < 16
  · rw [if_pos near]
    by_cases whole : 0 ≤ e
    · rw [if_pos whole]
      exact .inl (List.cons_ne_nil _ _)
    · rw [if_neg whole]
      exact .inl (padded_fraction _ (by omega))
  · rw [if_neg near]
    exact .inr (Option.some_ne_none _)

end Layout

section Double

variable {x : Float} {d : Dyadic}

-- The text of a double that is finite is a literal whose value is the double.
theorem float_text_literal (known : dyadic? x = some d) : ∃ l : Literal, l.Proper ∧ l.IsReal ∧ l.text = floatText x ∧
    signed l.negative (ofScientific l.count l.exponent) = x := by
  have double := (finite_double known).1
  unfold floatText
  rw [known]
  dsimp only
  by_cases zero : d.mantissa = 0
  · refine ⟨⟨d.negative, ['0'], ['0'], none⟩, ⟨nofun, fun _ => rfl, List.forall_mem_singleton.2 rfl,
      List.forall_mem_singleton.2 rfl, nofun⟩, .inl nofun, ?_, ?_⟩
    · rw [if_pos zero]
      cases d.negative <;> rfl
    · have code : d.code = 0 := by
        obtain ⟨-, -, canonical⟩ := dyadic_code known
        have full := canonical.full
        unfold Dyadic.code
        omega
      rw [double, code]
      rfl
  · have nearest := shortest_reads known zero
    have scientific := fun (n : ℕ) (e : ℤ) => shortest_scientific (n := n) (e := e) known zero
    have some := decimal_filled (dyadic_code known).2.1 (code_filled zero) nearest
    rw [if_neg zero]
    generalize shortest x.abs d.quotient.1 d.quotient.2 = parts at scientific some
    refine ⟨layoutLiteral d.negative parts.1 parts.2, layout_proper (Nat.pos_of_ne_zero some), layout_real, ?_, ?_⟩
    · rw [layout_text]
      cases d.negative <;> rfl
    · rw [scientific _ _ layout_value]
      exact layout_sign ▸ double.symm

-- A finite double is read back from its text.
theorem float_text_read (known : dyadic? x = some d) : readFloat? (floatText x) = some x := by
  obtain ⟨l, proper, -, text, value⟩ := float_text_literal known
  rw [← text, read_literal proper, value]

end Double
end PipelineMigration.Number
