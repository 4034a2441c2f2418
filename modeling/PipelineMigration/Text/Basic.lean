set_option autoImplicit false

/- A text is a list of characters, so that lengths and places count characters and every
   operation is a list operation. Nothing here knows more of a character than its identity. -/
namespace PipelineMigration

abbrev Text := List Char

instance : Coe String Text := ⟨String.toList⟩

namespace Text

/-- What is said of the characters of a text is decided along the text, not over all the characters that there are. -/
instance (priority := high) decidableEach (s : Text) (p : Char → Prop) [DecidablePred p] : Decidable (∀ c ∈ s, p c) :=
  List.decidableBAll p s

def trimLeftBy (p : Char → Bool) (s : Text) : Text := s.dropWhile p
def trimRightBy (p : Char → Bool) (s : Text) : Text := (s.reverse.dropWhile p).reverse
def trimBy (p : Char → Bool) (s : Text) : Text := trimRightBy p (trimLeftBy p s)

def startsWith (s start : Text) : Bool := start.isPrefixOf s

/-- The text before and the text after the first occurrence of `mark`. -/
def splitOnce (mark : Text) : Text → Option (Text × Text)
  | [] => if mark.isEmpty then some ([], []) else none
  | c :: r =>
    if mark.isPrefixOf (c :: r) then some ([], (c :: r).drop mark.length)
    else (splitOnce mark r).map fun (a, b) => (c :: a, b)

/-- The text before and the text after the last occurrence of `mark`. -/
def splitLast (mark s : Text) : Option (Text × Text) :=
  (splitOnce mark.reverse s.reverse).map fun (a, b) => (b.reverse, a.reverse)

def hasPart (s mark : Text) : Bool := (splitOnce mark s).isSome

theorem splitOnce_eq {mark s a b : Text} (h : splitOnce mark s = some (a, b)) :
    s = a ++ mark ++ b := by
  induction s generalizing a with
  | nil => simp_all [splitOnce]
  | cons c r ih =>
    rw [splitOnce] at h
    split at h
    · rename_i front
      obtain ⟨t, ht⟩ := List.isPrefixOf_iff_prefix.1 front
      simp only [Option.some.injEq, Prod.mk.injEq] at h
      obtain ⟨rfl, rfl⟩ := h
      rw [← ht]; simp
    · obtain ⟨⟨x, y⟩, hs, he⟩ := Option.map_eq_some_iff.1 h
      simp only [Prod.mk.injEq] at he
      obtain ⟨rfl, rfl⟩ := he
      simp [ih hs]

theorem splitOnce_eq_none_iff {mark s : Text} : splitOnce mark s = none ↔ ¬ mark <:+: s := by
  induction s with
  | nil => cases mark <;> simp [splitOnce]
  | cons c r ih =>
    rw [splitOnce, List.infix_cons_iff]
    split <;> rename_i front
    · simp [List.isPrefixOf_iff_prefix.1 front]
    · simp [ih, mt List.isPrefixOf_iff_prefix.2 front]

theorem hasPart_iff {s mark : Text} : hasPart s mark = true ↔ mark <:+: s := by
  simp [hasPart, Option.isSome_iff_ne_none, splitOnce_eq_none_iff]

/-- How many characters precede the first occurrence of `mark`. -/
def indexOf? (s mark : Text) : Option Nat := (splitOnce mark s).map (·.1.length)

theorem indexOf?_add_length_le {s mark : Text} {k : Nat} (h : indexOf? s mark = some k) :
    k + mark.length ≤ s.length := by
  obtain ⟨⟨a, b⟩, hs, rfl⟩ := Option.map_eq_some_iff.1 h
  rw [splitOnce_eq hs]; simp

/-- Counts occurrences that do not overlap, from the left; `skip` characters still belong to
    the last one. -/
def occurrencesFrom (mark : Text) : Nat → Text → Nat
  | _, [] => 0
  | skip + 1, _ :: r => occurrencesFrom mark skip r
  | 0, c :: r =>
    if mark.isPrefixOf (c :: r) then 1 + occurrencesFrom mark (mark.length - 1) r
    else occurrencesFrom mark 0 r

def occurrences (s mark : Text) : Nat := occurrencesFrom mark 0 s

def replaceFrom (mark new : Text) : Nat → Text → Text
  | _, [] => []
  | skip + 1, _ :: r => replaceFrom mark new skip r
  | 0, c :: r =>
    if mark.isPrefixOf (c :: r) then new ++ replaceFrom mark new (mark.length - 1) r
    else c :: replaceFrom mark new 0 r

/-- Every occurrence of the non-empty `mark`, from the left and without overlap, becomes `new`. -/
def replace (s mark new : Text) : Text := replaceFrom mark new 0 s

def join (separator : Text) (parts : List Text) : Text := separator.intercalate parts

/-- The pieces between the characters that satisfy `p`. -/
def splitWhere (p : Char → Bool) : Text → List Text
  | [] => [[]]
  | c :: r =>
    if p c then [] :: splitWhere p r
    else match splitWhere p r with
      | [] => [[c]]
      | w :: ws => (c :: w) :: ws

/-- Alphabetical order by code point. -/
def before (a b : Text) : Bool :=
  match a, b with
  | _, [] => false
  | [], _ :: _ => true
  | c :: r, d :: t => c < d || (c == d && before r t)

def notAfter (a b : Text) : Bool := !before b a

theorem before_irrefl (a : Text) : before a a = false := by
  induction a with
  | nil => rfl
  | cons c r ih => simp [before, ih]

theorem before_trans {a b c : Text} (hab : before a b = true) (hbc : before b c = true) :
    before a c = true := by
  induction a generalizing b c with
  | nil => cases c with
    | nil => cases b <;> simp [before] at hbc
    | cons d t => rfl
  | cons x r ih => match b, c with
    | [], _ => simp [before] at hab
    | _ :: _, [] => simp [before] at hbc
    | y :: s, z :: t =>
      simp only [before, Bool.or_eq_true, decide_eq_true_eq, Bool.and_eq_true, beq_iff_eq] at *
      rcases hab with h | ⟨rfl, h⟩ <;> rcases hbc with k | ⟨rfl, k⟩
      · exact .inl (Char.lt_trans h k)
      · exact .inl h
      · exact .inl k
      · exact .inr ⟨rfl, ih h k⟩

theorem eq_of_not_before {a b : Text} (hab : before a b = false) (hba : before b a = false) :
    a = b := by
  induction a generalizing b with
  | nil => cases b <;> simp_all [before]
  | cons c r ih => cases b with
    | nil => simp [before] at hba
    | cons d t =>
      simp only [before, Bool.or_eq_false_iff, decide_eq_false_iff_not, Char.not_lt] at hab hba
      have h : c = d := Char.le_antisymm hba.1 hab.1
      subst h
      simp only [beq_self_eq_true, Bool.true_and] at hab hba
      rw [ih hab.2 hba.2]

theorem notAfter_trans {a b c : Text} (hab : notAfter a b = true) (hbc : notAfter b c = true) :
    notAfter a c = true := by
  simp only [notAfter, Bool.not_eq_true'] at *
  by_cases h : before c a = true
  · by_cases k : before b c = true
    · exact absurd (before_trans k h) (by simp [hab])
    · have : b = c := eq_of_not_before (by simpa using k) hbc
      subst this; exact absurd h (by simp [hab])
  · simpa using h

theorem notAfter_total (a b : Text) : (notAfter a b || notAfter b a) = true := by
  by_cases h : before b a = true
  · have : before a b = false := by
      by_cases k : before a b = true
      · exact absurd (before_trans h k) (by simp [before_irrefl])
      · simpa using k
    simp [notAfter, this]
  · simp [notAfter, h]

theorem before_of_not_after {a b : Text} (ordered : notAfter a b = true) (apart : a ≠ b) : before a b = true := by
  rw [notAfter, Bool.not_eq_true'] at ordered
  by_cases less : before a b = true
  · exact less
  · exact absurd (eq_of_not_before (by simpa using less) ordered) apart

/-- A text of a count in decimal digits. -/
def ofNat (n : Nat) : Text := Nat.toDigits 10 n

def ofInt : Int → Text
  | .ofNat n => ofNat n
  | .negSucc n => '-' :: ofNat (n + 1)

end Text
end PipelineMigration
