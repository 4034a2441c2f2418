import Mathlib.Order.Bounds.Basic
import PipelineMigration.Feature.Limit
import PipelineMigration.Proofs.Number.Numeral
import PipelineMigration.Proofs.Script.Argument
import PipelineMigration.Proofs.Script.Block
set_option autoImplicit false

/- The time a run may take, as a script asks for it: an amount in digits and the name of a unit. It is the least number of
   whole minutes that is not shorter, where units finer than a millisecond count as one; for those it is too long as soon
   as the amount fills a minute of milliseconds. -/
namespace PipelineMigration

open Text (isAsciiDigit isQuote)

namespace Script

variable {opener closer : Char} {u v : Text}

theorem code_plain (plain : ∀ c ∈ u, isQuote c = false) : code (u ++ v) = u.map some ++ code v := by
  induction u with
  | nil => rfl
  | cons c u ih =>
    obtain ⟨here, rest⟩ := List.forall_mem_cons.1 plain
    rw [List.cons_append, code, codeFrom, if_neg (by rw [here]; exact Bool.false_ne_true)]
    exact congrArg (some c :: ·) (ih rest)

theorem closer_skips (other : ∀ c ∈ u, c ≠ opener ∧ c ≠ closer) (index depth : Nat) (s : List (Option Char)) :
    closerIndex opener closer index depth (u.map some ++ s) = closerIndex opener closer (index + u.length) depth s := by
  induction u generalizing index with
  | nil => rfl
  | cons c u ih =>
    obtain ⟨⟨opens, closes⟩, rest⟩ := List.forall_mem_cons.1 other
    rw [List.map_cons, List.cons_append, closerIndex, if_neg (by simpa using opens), if_neg (by simpa using closes),
      ih rest, List.length_cons, Nat.add_assoc, Nat.add_comm 1]

end Script

namespace Feature

open Script

/-- How many nanoseconds a unit has. -/
def unitNanos : List (Text × Nat) :=
  [("NANOSECONDS", 1), ("MICROSECONDS", 1000), ("MILLISECONDS", 1000000), ("SECONDS", 1000000000),
    ("MINUTES", 60000000000), ("HOURS", 3600000000000), ("DAYS", 86400000000000)]

/-- A call that asks for a time limit. -/
def timeoutText (digits unit : Text) : Text := "timeout(time: " ++ digits ++ ", unit: '" ++ unit ++ "')"

section Call

variable {digits unit : Text} {nanos : Nat}

-- What the program makes of a unit, and that nothing in its name is taken for more than its characters.
theorem unit_facts : ∀ entry ∈ unitNanos, unitMillis entry.1 * 1000000 = max entry.2 1000000 ∧
    (∀ c ∈ entry.1, isQuote c = false ∧ c ≠ ':') ∧
    closerIndex '(' ')' 0 1 (code ('\'' :: (entry.1 ++ ['\'', ')']))) = some (entry.1.length + 2) := by
  decide

def timeArguments (digits unit : Text) (counted : digits ≠ [] ∧ ∀ c ∈ digits, isAsciiDigit c = true)
    (plain : ∀ c ∈ unit, isQuote c = false ∧ c ≠ ':') : NumberAndLiteral where
  name := "time"
  digits := digits
  other := "unit"
  value := unit
  named := by decide
  counted := counted
  called := by decide
  plain := plain

theorem call_found (rest : Text) :
    (timeoutCall.firstMatch ("timeout(".toList ++ rest)).map (·.after.ahead) = some rest := by
  have opening : "timeout(".toList = ['t', 'i', 'm', 'e', 'o', 'u', 't', '('] := by decide
  rw [opening]
  rfl

theorem call_encloses (counted : digits ≠ [] ∧ ∀ c ∈ digits, isAsciiDigit c = true)
    (listed : (unit, nanos) ∈ unitNanos) :
    enclosed '(' ')' ((timeArguments digits unit counted (unit_facts _ listed).2.1).text ++ [')']) =
      (timeArguments digits unit counted (unit_facts _ listed).2.1).text := by
  obtain ⟨-, plain, closes⟩ := unit_facts _ listed
  dsimp only at plain closes
  generalize whole : timeArguments digits unit counted plain = a
  have front : a.text ++ [')'] = (a.front ++ (a.other ++ [':', ' '])) ++ '\'' :: (unit ++ ['\'', ')']) := by
    simp [NumberAndLiteral.text, ← whole, timeArguments]
  have open_ : ∀ c ∈ a.front ++ (a.other ++ [':', ' ']), c ≠ '(' ∧ c ≠ ')' := by
    have number : ∀ c ∈ a.digits, c ≠ '(' ∧ c ≠ ')' := by
      intro c member
      have digit := a.counted.2 c member
      constructor <;> rintro rfl <;> cases digit
    have words : ∀ c ∈ "time".toList ++ [':', ' ', ','] ++ "unit".toList, c ≠ '(' ∧ c ≠ ')' := by decide
    have names : ∀ c ∈ a.name ++ [':', ' ', ','] ++ a.other, c ≠ '(' ∧ c ≠ ')' := by
      rw [← whole]
      exact words
    simp only [NumberAndLiteral.front, List.forall_mem_append, List.forall_mem_cons] at names ⊢
    tauto
  -- Before the literal there are no brackets, and the next one behind it closes.
  have length : enclosedLength '(' ')' (a.text ++ [')']) = some a.text.length := by
    rw [enclosedLength, front, code_plain a.front_unquoted, closer_skips open_, Nat.zero_add,
      ← Nat.add_zero (List.length _), closer_shift, closes, Option.map_some]
    have long := congrArg List.length front
    simp only [List.length_append, List.length_cons, List.length_nil] at long ⊢
    exact congrArg some (by omega)
  rw [enclosed, length]
  exact List.take_left

theorem timeout_text (counted : digits ≠ [] ∧ ∀ c ∈ digits, isAsciiDigit c = true)
    (plain : ∀ c ∈ unit, isQuote c = false ∧ c ≠ ':') :
    timeoutText digits unit = "timeout(".toList ++ ((timeArguments digits unit counted plain).text ++ [')']) := by
  have front : "timeout(time: ".toList = "timeout(".toList ++ ("time".toList ++ [':', ' ']) := by decide
  have mid : ", unit: '".toList = [',', ' '] ++ ("unit".toList ++ [':', ' ', '\'']) := by decide
  have back : "')".toList = ['\'', ')'] := by decide
  unfold timeoutText NumberAndLiteral.text NumberAndLiteral.front timeArguments
  rw [front, mid, back]
  simp only [List.append_assoc, List.cons_append, List.nil_append]

theorem timeout_scaled (counted : digits ≠ [] ∧ ∀ c ∈ digits, isAsciiDigit c = true)
    (short : digits.length ≤ Number.digitLimit) (listed : (unit, nanos) ∈ unitNanos) :
    timeout (timeoutText digits unit) = .ok (ceilMinutes (Number.valueOf digits * unitMillis unit)) := by
  obtain ⟨-, plain, -⟩ := unit_facts _ listed
  have encloses := call_encloses counted listed
  have apart : ¬ "time".toList <:+ "unit".toList := by decide
  have apart' : ¬ "unit".toList <:+ "time".toList := by decide
  obtain ⟨amount, scale⟩ := (timeArguments digits unit counted plain).named_arguments apart apart'
  have text := timeout_text counted plain
  obtain ⟨m, found, after⟩ :=
    Option.map_eq_some_iff.1 (call_found ((timeArguments digits unit counted plain).text ++ [')']))
  have numeric : looksNumeric digits = true := by
    obtain ⟨c, r, rfl⟩ := List.exists_cons_of_ne_nil counted.1
    have unsigned : c ≠ '-' := by
      rintro rfl
      cases counted.2 '-' List.mem_cons_self
    have kept : Text.trimLeftBy (· == '-') (c :: r) = c :: r := List.dropWhile_cons_of_neg (by simpa using unsigned)
    rw [looksNumeric, kept]
    exact List.all_eq_true.2 fun d member => Text.digit_of_ascii (counted.2 d member)
  have read := Number.read_ascii counted.1 counted.2 short
  rw [timeout, text, found]
  dsimp only
  rw [callArguments, after, encloses]
  change Keyed.get? "time".toList _ = some digits at amount
  change Keyed.get? "unit".toList _ = some unit at scale
  rw [timeoutAmount?, amount, scale, Option.some_or, Option.filter_some, if_pos numeric, Option.getD_some]
  dsimp only
  rw [read]
  rfl

end Call

section Minutes

-- Rounding up gives the least number of whole minutes that is not shorter.
theorem ceil_minutes_least {millis : Int} (positive : 0 < millis) :
    IsLeast {k : Int | millis ≤ k * 60000} (ceilMinutes millis) := by
  rw [ceilMinutes, if_neg (by omega), Int.fdiv_eq_ediv_of_nonneg _ (by decide)]
  refine ⟨?_, fun k enough => ?_⟩
  · change millis ≤ _ * 60000
    omega
  · change millis ≤ k * 60000 at enough
    omega

theorem least_scaled {millis minutes : Int} (least : IsLeast {k : Int | millis ≤ k * 60000} minutes) :
    IsLeast {k : Int | millis * 1000000 ≤ k * 60000000000} minutes := by
  have same : {k : Int | millis * 1000000 ≤ k * 60000000000} = {k : Int | millis ≤ k * 60000} := by
    ext k
    change millis * 1000000 ≤ k * 60000000000 ↔ millis ≤ k * 60000
    omega
  rw [same]
  exact least

-- Units far finer than a millisecond fill no second minute before their number fills many of milliseconds.
theorem least_fine_iff {n nanos minutes : Int} (positive : 0 < n) (unit : 0 < nanos) (fine : nanos ≤ 1000)
    (least : IsLeast {k : Int | n ≤ k * 60000} minutes) :
    IsLeast {k : Int | n * nanos ≤ k * 60000000000} minutes ↔ n ≤ 60000 := by
  have enough : n ≤ minutes * 60000 := least.1
  have fewer : ¬ n ≤ (minutes - 1) * 60000 := fun less => by
    have := least.2 less
    omega
  have low : 0 < n * nanos := Int.mul_pos positive unit
  -- The unit is at most a thousandth of a millisecond, so that the two countings agree in the first minute only.
  have high : n * nanos ≤ n * 1000 := Int.mul_le_mul_of_nonneg_left fine (by omega)
  constructor
  · intro exactly_
    have short : ¬ n * nanos ≤ (minutes - 1) * 60000000000 := fun less => by
      have := exactly_.2 less
      omega
    omega
  · intro few
    obtain rfl : minutes = 1 := by omega
    refine ⟨?_, fun k covers => ?_⟩
    · change n * nanos ≤ 1 * 60000000000
      omega
    · change n * nanos ≤ k * 60000000000 at covers
      omega

end Minutes

/-- A time limit in digits and a unit is the least number of whole minutes that covers the amount of units, each of them
    taken for a millisecond at least; so that it is the least that covers the time unless the unit is finer and the amount
    more than a minute of milliseconds. -/
theorem timeout_least_iff {digits unit : Text} {nanos : Nat}
    (counted : digits ≠ [] ∧ ∀ c ∈ digits, isAsciiDigit c = true) (short : digits.length ≤ Number.digitLimit)
    (positive : 0 < Number.valueOf digits) (listed : (unit, nanos) ∈ unitNanos) :
    ∃ minutes : Int, timeout (timeoutText digits unit) = .ok minutes ∧
      IsLeast {k : Int | (Number.valueOf digits : Int) * max nanos 1000000 ≤ k * 60000000000} minutes ∧
      (IsLeast {k : Int | (Number.valueOf digits : Int) * nanos ≤ k * 60000000000} minutes ↔
        1000000 ≤ nanos ∨ Number.valueOf digits ≤ 60000) := by
  obtain ⟨factor, -, -⟩ := unit_facts _ listed
  have grades : ∀ entry ∈ unitNanos, 1000000 ≤ entry.2 ∨ 0 < entry.2 ∧ entry.2 ≤ 1000 := by decide
  have grade : 1000000 ≤ nanos ∨ 0 < nanos ∧ nanos ≤ 1000 := grades _ listed
  have amount : 0 < (Number.valueOf digits : Int) := Int.natCast_pos.2 positive
  dsimp only at factor
  have whole : 0 < unitMillis unit := by omega
  have least := ceil_minutes_least (Int.mul_pos amount whole)
  have scaled := least_scaled least
  rw [Int.mul_assoc, factor] at scaled
  refine ⟨_, timeout_scaled counted short listed, scaled, ?_⟩
  rcases grade with coarse | ⟨some_, fine⟩
  · rw [Nat.max_eq_left coarse] at scaled
    exact iff_of_true scaled (.inl coarse)
  · have once : unitMillis unit = 1 := by
      rw [Nat.max_eq_right (Nat.le_trans fine (by decide))] at factor
      omega
    have finer : ¬ 1000000 ≤ nanos := fun coarse => absurd (Nat.le_trans coarse fine) (by decide)
    rw [once, Int.mul_one] at least ⊢
    rw [least_fine_iff amount (Int.natCast_pos.2 some_) (Int.ofNat_le.2 fine) least, or_iff_right finer]
    exact Int.ofNat_le

/-- A minute and a half takes two minutes. -/
theorem ninety_seconds_covered : timeout (timeoutText "90" "SECONDS") = .ok 2 ∧
    IsLeast {k : Int | (Number.valueOf "90" : Int) * (1000000000 : Nat) ≤ k * 60000000000} 2 := by
  have ascii : ∀ c ∈ "90".toList, isAsciiDigit c = true := by decide
  obtain ⟨minutes, read, -, least⟩ :=
    @timeout_least_iff "90" "SECONDS" 1000000000 ⟨by decide, ascii⟩ (by decide) (by decide) (by decide)
  have two : timeout (timeoutText "90" "SECONDS") = .ok 2 := by decide +kernel
  obtain rfl := Except.ok.inj (two.symm.trans read)
  exact ⟨two, least.2 (.inl (by decide))⟩

/-- A little more than 60 microseconds takes two minutes, where one would do. -/
theorem nanoseconds_overstated : timeout (timeoutText "60001" "NANOSECONDS") = .ok 2 ∧
    ¬ IsLeast {k : Int | (Number.valueOf "60001" : Int) * (1 : Nat) ≤ k * 60000000000} 2 := by
  have value : Number.valueOf "60001" = 60001 := by decide
  refine ⟨by decide +kernel, fun least => ?_⟩
  have one : (2 : Int) ≤ 1 := least.2 (by rw [value]; decide)
  omega

end Feature
end PipelineMigration
