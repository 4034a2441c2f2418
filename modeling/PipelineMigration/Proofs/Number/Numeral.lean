import PipelineMigration.Number.Integer
import Mathlib.Data.List.Basic
import Mathlib.Tactic.IntervalCases
set_option autoImplicit false

/- Which texts are read as whole numbers, among those of digits and minus signs, and how great the
   numbers are that are read. -/
namespace PipelineMigration.Text

section Digit

variable {c : Char}

theorem digit_ascii (digit : isAsciiDigit c = true) : c.toNat < 128 := by
  have bound : c ≤ '9' := of_decide_eq_true (Bool.and_eq_true_iff.1 digit).2
  exact Nat.lt_of_le_of_lt bound (by decide)

theorem digit_word (digit : isAsciiDigit c = true) : isWord c = true := by
  rw [isWord, if_pos (digit_ascii digit), digit, Bool.or_true, Bool.true_or]

theorem digit_value (digit : isAsciiDigit c = true) : decimalValue? c = some (c.toNat - 48) := by
  rw [decimalValue?, if_pos (digit_ascii digit), if_pos digit]

theorem digit_decimal (digit : isAsciiDigit c = true) : isDecimal c = true := by
  rw [isDecimal, digit_value digit]
  rfl

end Digit

section Count

variable (n : Nat)

-- A number is one or more digits.
theorem number_digits : ∃ d r, ofNat n = d :: r ∧ ∀ c ∈ d :: r, isAsciiDigit c = true := by
  have digits : ∀ c ∈ ofNat n, isAsciiDigit c = true := by
    intro c member
    have digit : c.isDigit = true := Nat.isDigit_of_mem_toDigits (by decide) (by decide) member
    simpa [Char.isDigit, isAsciiDigit, Char.le_def] using digit
  have nonempty : ofNat n ≠ [] := Nat.toDigits_ne_nil
  obtain ⟨d, r, same⟩ := List.exists_cons_of_ne_nil nonempty
  rw [same] at digits
  exact ⟨d, r, same, digits⟩

theorem number_leads (positive : 0 < n) : (ofNat n).head? ≠ some '0' := by
  unfold ofNat
  induction n using Nat.strongRecOn with
  | ind n ih =>
    by_cases small : n < 10
    · rw [Nat.toDigits_of_lt_base small]
      interval_cases n <;> decide
    · have front : (Nat.toDigits 10 (n / 10)).head? ≠ some '0' := ih _ (by omega) (by omega)
      obtain ⟨d, r, same⟩ := List.exists_cons_of_ne_nil (Nat.toDigits_ne_nil (n := n / 10) (b := 10))
      rw [Nat.toDigits_eq_if (by decide), if_neg small, same]
      rwa [same] at front

theorem number_digit : ∀ c ∈ ofNat n, isAsciiDigit c = true := by
  obtain ⟨d, r, same, digits⟩ := number_digits n
  rwa [same]

end Count

end PipelineMigration.Text

namespace PipelineMigration.Number

open Text (isDecimal isDigit decimalValue?)

/-- Decimal digits after at most one minus sign, no more of them than are read. -/
def isNumeral (t : Text) : Bool :=
  let digits := (splitSign t).2
  !digits.isEmpty && digits.all isDecimal && decide (digits.length ≤ digitLimit)

/-- A number that is short enough to be written. -/
def Fits (n : Int) : Prop := n.natAbs < Nat.pow 10 digitLimit

theorem write_integer_fits {n : Int} (fits : Fits n) : writeInteger n = .ok (Text.ofInt n) :=
  if_neg (Nat.not_le_of_lt fits)

theorem fits_of_write {n : Int} {t : Text} (written : writeInteger n = .ok t) : Fits n := by
  unfold writeInteger at written
  split at written
  · cases written
  · rename_i short
    exact Nat.lt_of_not_le short

theorem fits_zero : Fits 0 := by
  unfold Fits
  rw [Nat.pow_eq]
  exact Nat.pow_pos (by decide)

theorem fits_of_le {m n : Int} (fits : Fits n) (less : m.natAbs ≤ n.natAbs) : Fits m := Nat.lt_of_le_of_lt less fits

section Characters

theorem decimal_value_lt {c : Char} {d : Nat} (value : decimalValue? c = some d) : d < 10 := by
  unfold decimalValue? at value
  split at value
  · split at value
    · rename_i digit
      simp only [Text.isAsciiDigit, Bool.and_eq_true, decide_eq_true_eq, Char.le_def, UInt32.le_iff_toNat_le] at digit
      have below : c.toNat ≤ 57 := digit.2
      have same := Option.some.inj value
      omega
    · cases value
  · split at value
    · cases value
    · dsimp only at value
      split at value
      · rename_i small
        exact Option.some.inj value ▸ small
      · cases value

/-- The code points of blank characters. -/
def blankCodes : List Nat :=
  [9, 10, 11, 12, 13, 28, 29, 30, 31, 32, 0x85, 0xa0, 0x1680, 0x2000, 0x2001, 0x2002, 0x2003, 0x2004, 0x2005,
    0x2006, 0x2007, 0x2008, 0x2009, 0x200a, 0x2028, 0x2029, 0x202f, 0x205f, 0x3000]

theorem blank_code {c : Char} (blank : Text.isBlank c = true) : c.toNat ∈ blankCodes := by
  simp only [Text.isBlank, Bool.or_eq_true, Bool.and_eq_true, decide_eq_true_eq, beq_iff_eq] at blank
  simp only [blankCodes, List.mem_cons, List.not_mem_nil, or_false]
  omega

theorem digit_unpadded {c : Char} (digit : isDigit c = true) : isPadding c = false := by
  have undigited : ∀ n ∈ blankCodes, isDigit (Char.ofNat n) = false := by decide +kernel
  refine Bool.eq_false_iff.2 fun padding => ?_
  have other := undigited c.toNat (blank_code (Bool.and_eq_true_iff.1 padding).1)
  rw [Char.ofNat_toNat, digit] at other
  cases other

theorem decimal_digit {c : Char} (decimal : isDecimal c = true) : isDigit c = true := by
  rw [isDigit, decimal, Bool.true_or]

end Characters

section Digits

-- Digits taken from a text without underscores are all those at its front.
theorem take_digits_inversion {last : Bool} {s rest : Text} {ds : List Nat} (barless : '_' ∉ s)
    (taken : takeDigits last s = some (ds, rest)) : ∃ front, s = front ++ rest ∧ front.length = ds.length ∧
      front.all isDecimal = true ∧ (last = false → front ≠ []) := by
  induction s generalizing last ds with
  | nil =>
    unfold takeDigits at taken
    split at taken
    · rename_i before
      cases taken
      exact ⟨[], rfl, rfl, rfl, fun first => by rw [before] at first; cases first⟩
    · cases taken
  | cons c r ih =>
    have other : '_' ≠ c := fun same => barless (same ▸ List.mem_cons_self)
    have later : '_' ∉ r := fun member => barless (List.mem_cons_of_mem c member)
    unfold takeDigits at taken
    split at taken
    · rename_i d value
      obtain ⟨⟨es, left⟩, inner, same⟩ := Option.map_eq_some_iff.1 taken
      obtain ⟨rfl, rfl⟩ := Prod.mk.inj same
      obtain ⟨front, whole, length, decimal, -⟩ := ih later inner
      refine ⟨c :: front, by rw [whole]; rfl, by rw [List.length_cons, length, List.length_cons], ?_,
        fun _ => List.cons_ne_nil c front⟩
      rw [List.all_cons, decimal, isDecimal, value]
      rfl
    · split at taken
      · rename_i bar
        exact absurd (beq_iff_eq.1 bar).symm other
      · split at taken
        · rename_i before
          cases taken
          exact ⟨[], rfl, rfl, rfl, fun first => by rw [before] at first; cases first⟩
        · cases taken

theorem take_digits_all (last : Bool) (s : Text) (some_ : last = true ∨ s ≠ []) (decimal : s.all isDecimal = true) :
    ∃ ds, takeDigits last s = some (ds, []) ∧ ds.length = s.length := by
  induction s generalizing last with
  | nil =>
    obtain rfl : last = true := some_.resolve_right fun filled => filled rfl
    exact ⟨[], rfl, rfl⟩
  | cons c r ih =>
    obtain ⟨first, others⟩ := Bool.and_eq_true_iff.1 decimal
    obtain ⟨d, value⟩ := Option.isSome_iff_exists.1 first
    obtain ⟨ds, taken, length⟩ := ih true (.inl rfl) others
    refine ⟨d :: ds, ?_, by rw [List.length_cons, length, List.length_cons]⟩
    unfold takeDigits
    rw [value, taken]
    rfl

theorem take_digits_small {last : Bool} {s rest : Text} {ds : List Nat}
    (taken : takeDigits last s = some (ds, rest)) : ∀ d ∈ ds, d < 10 := by
  induction s generalizing last ds with
  | nil =>
    unfold takeDigits at taken
    split at taken
    · cases taken
      exact fun _ none => nomatch none
    · cases taken
  | cons c r ih =>
    unfold takeDigits at taken
    split at taken
    · rename_i d value
      obtain ⟨⟨es, left⟩, inner, same⟩ := Option.map_eq_some_iff.1 taken
      obtain ⟨rfl, rfl⟩ := Prod.mk.inj same
      exact List.forall_mem_cons.2 ⟨decimal_value_lt value, ih inner⟩
    · split at taken
      · split at taken
        · exact ih taken
        · cases taken
      · split at taken
        · cases taken
          exact fun _ none => nomatch none
        · cases taken

theorem of_digits_lt (ds : List Nat) (small : ∀ d ∈ ds, d < 10) : ofDigits ds < Nat.pow 10 ds.length := by
  suffices run : ∀ n, ds.foldl (fun n d => 10 * n + d) n < (n + 1) * Nat.pow 10 ds.length by
    simpa [ofDigits] using run 0
  induction ds with
  | nil => intro n; simp
  | cons d rest ih =>
    intro n
    obtain ⟨first, others⟩ := List.forall_mem_cons.1 small
    have next := ih others (10 * n + d)
    have bound : (10 * n + d + 1) * Nat.pow 10 rest.length ≤ (n + 1) * 10 * Nat.pow 10 rest.length :=
      Nat.mul_le_mul_right _ (by omega)
    have power : Nat.pow 10 (rest.length + 1) = 10 * Nat.pow 10 rest.length := Nat.mul_comm _ _
    rw [List.foldl_cons, List.length_cons, power, ← Nat.mul_assoc]
    exact Nat.lt_of_lt_of_le next bound

end Digits

-- A number that is read is short enough to be written.
theorem read_integer_fits {s : Text} {n : Int} (read : readInteger s = .ok n) : Fits n := by
  unfold readInteger at read
  dsimp only at read
  split at read
  · cases read
  · rename_i ds rest taken
    split at read
    · cases read
    · rename_i short
      split at read
      · cases read
      · have digits := of_digits_lt ds (take_digits_small taken)
        have bound : Nat.pow 10 ds.length ≤ Nat.pow 10 digitLimit := by
          rw [Nat.pow_eq, Nat.pow_eq]
          exact Nat.pow_le_pow_right (by decide) (Nat.le_of_not_lt short)
        have size : n.natAbs = ofDigits ds := by
          rw [← Except.ok.inj read]
          split
          · rw [Int.natAbs_neg, Int.natAbs_natCast]
          · rw [Int.natAbs_natCast]
        unfold Fits
        rw [size]
        exact Nat.lt_of_lt_of_le digits bound

section Plain

theorem split_sign_subset (t : Text) : (splitSign t).2 ⊆ t := by
  unfold splitSign
  split
  · exact List.subset_cons_self _ _
  · exact List.subset_cons_self _ _
  · exact List.Subset.refl _

theorem take_digits_whole_iff {s : Text} (barless : '_' ∉ s) :
    (∃ ds, takeDigits false s = some (ds, []) ∧ ds.length ≤ digitLimit) ↔
      s ≠ [] ∧ s.all isDecimal = true ∧ s.length ≤ digitLimit := by
  constructor
  · rintro ⟨ds, taken, short⟩
    obtain ⟨front, whole, length, decimal, filled⟩ := take_digits_inversion barless taken
    rw [List.append_nil] at whole
    rw [whole, length]
    exact ⟨filled rfl, decimal, short⟩
  · rintro ⟨filled, decimal, short⟩
    obtain ⟨ds, taken, length⟩ := take_digits_all false s (.inr filled) decimal
    exact ⟨ds, taken, length ▸ short⟩

-- Of a text without blanks nothing may follow the digits.
theorem read_unpadded_iff {t : Text} (unpadded : ∀ c ∈ t, isPadding c = false) (barless : '_' ∉ (splitSign t).2) :
    (∃ n, readInteger t = .ok n) ↔
      ∃ ds, takeDigits false (splitSign t).2 = some (ds, []) ∧ ds.length ≤ digitLimit := by
  have trimmed : Text.trimLeftBy isPadding t = t := by
    cases t with
    | nil => rfl
    | cons c r => exact List.dropWhile_cons_of_neg (by rw [unpadded c List.mem_cons_self]; exact Bool.false_ne_true)
  have inside := split_sign_subset t
  unfold readInteger
  rw [trimmed]
  generalize splitSign t = parts at inside barless
  obtain ⟨negative, digits⟩ := parts
  dsimp only at inside barless ⊢
  constructor
  · rintro ⟨n, read⟩
    split at read
    · cases read
    · rename_i ds rest taken
      split at read
      · cases read
      · rename_i short
        split at read
        · cases read
        · rename_i padded
          obtain ⟨front, whole, -, -, -⟩ := take_digits_inversion barless taken
          have ended : rest = [] := by
            cases rest with
            | nil => rfl
            | cons c r =>
              have among : c ∈ t := inside (whole ▸ List.mem_append_right front List.mem_cons_self)
              simp [unpadded c among] at padded
          exact ⟨ds, ended ▸ taken, Nat.le_of_not_lt short⟩
  · rintro ⟨ds, taken, short⟩
    rw [taken]
    dsimp only
    rw [if_neg (Nat.not_lt_of_le short)]
    exact ⟨_, rfl⟩

-- Of the texts of digits and minus signs just the numerals are read.
theorem read_integer_iff {t : Text} (plain : ∀ c ∈ t, c = '-' ∨ isDigit c = true) :
    (∃ n, readInteger t = .ok n) ↔ isNumeral t = true := by
  have unpadded : ∀ c ∈ t, isPadding c = false := by
    intro c member
    rcases plain c member with rfl | digit
    · decide
    · exact digit_unpadded digit
  have barless : '_' ∉ (splitSign t).2 := by
    intro member
    rcases plain '_' (split_sign_subset t member) with other | digit
    · exact absurd other (by decide)
    · exact absurd digit (by decide +kernel)
  rw [read_unpadded_iff unpadded barless, take_digits_whole_iff barless]
  simp only [isNumeral, Bool.and_eq_true, Bool.not_eq_true', List.isEmpty_eq_false_iff, decide_eq_true_eq, and_assoc,
    ne_eq]

end Plain

section Ascii

open Text (isAsciiDigit)

def valueOf (digits : Text) : Nat := ofDigits (digits.map fun c => c.toNat - 48)

theorem take_ascii {digits : Text} (ascii : ∀ c ∈ digits, isAsciiDigit c = true) (last : Bool)
    (some_ : last = true ∨ digits ≠ []) :
    takeDigits last digits = some (digits.map fun c => c.toNat - 48, []) := by
  induction digits generalizing last with
  | nil =>
    obtain rfl : last = true := some_.resolve_right fun filled => filled rfl
    rfl
  | cons c rest ih =>
    obtain ⟨first, others⟩ := List.forall_mem_cons.1 ascii
    rw [takeDigits, Text.digit_value first]
    dsimp only
    rw [ih others true (.inl rfl)]
    rfl

theorem split_sign_digit {c : Char} (digit : isAsciiDigit c = true) (r : Text) :
    splitSign (c :: r) = (false, c :: r) := by
  unfold splitSign
  split
  · rename_i same
    rw [(List.cons.inj same).1] at digit
    cases digit
  · rename_i same
    rw [(List.cons.inj same).1] at digit
    cases digit
  · rfl

theorem read_signed {digits : Text} (filled : digits ≠ []) (ascii : ∀ c ∈ digits, isAsciiDigit c = true)
    (short : digits.length ≤ digitLimit) (negative : Bool) :
    readInteger ((if negative then ['-'] else []) ++ digits) =
      .ok (if negative then -(valueOf digits : Int) else valueOf digits) := by
  obtain ⟨c, r, rfl⟩ := List.exists_cons_of_ne_nil filled
  have first := ascii c List.mem_cons_self
  have unpadded : Text.trimLeftBy isPadding ((if negative then ['-'] else []) ++ c :: r) =
      (if negative then ['-'] else []) ++ c :: r := by
    cases negative with
    | false => exact List.dropWhile_cons_of_neg (by simp [digit_unpadded (Text.digit_of_ascii first)])
    | true => rfl
  have sign : splitSign ((if negative then ['-'] else []) ++ c :: r) = (negative, c :: r) := by
    cases negative with
    | false => exact split_sign_digit first r
    | true => rfl
  rw [readInteger, unpadded, sign]
  dsimp only
  rw [take_ascii ascii false (.inr filled)]
  dsimp only
  rw [if_neg (by rw [List.length_map]; omega)]
  rfl

theorem read_ascii {digits : Text} (filled : digits ≠ []) (ascii : ∀ c ∈ digits, isAsciiDigit c = true)
    (short : digits.length ≤ digitLimit) : readInteger digits = .ok (valueOf digits : Int) :=
  read_signed filled ascii short false

end Ascii

end PipelineMigration.Number
