import Mathlib.Data.List.Chain
import PipelineMigration.Proofs.Credential.Validation
set_option autoImplicit false

/- A key is made once. What comes out of the making, runs of capitals and digits with one underscore between each two,
   not too long and with no beginning that is forbidden, goes through it again as it is, and so does every other text
   of that form. -/
namespace PipelineMigration.KeyPolicy

section Underscores

-- An underscore stands between two other characters, or not at all.
structure Joined (s : Text) : Prop where
  opens : s.head? ≠ some '_'
  closes : s.getLast? ≠ some '_'
  apart : s.IsChain fun c d => c = '_' → d ≠ '_'

instance (s : Text) : Decidable (Joined s) :=
  decidable_of_iff (s.head? ≠ some '_' ∧ s.getLast? ≠ some '_' ∧ s.IsChain fun c d => c = '_' → d ≠ '_')
    ⟨fun ⟨opens, closes, apart⟩ => ⟨opens, closes, apart⟩, fun held => ⟨held.opens, held.closes, held.apart⟩⟩

theorem undoubled_iff (s : Text) : (s.IsChain fun c d => c = '_' → d ≠ '_') ↔ ¬ "__".toList <:+: s := by
  constructor
  · intro apart doubled
    have pair := List.IsChain.infix apart doubled
    exact absurd pair (by decide)
  · intro single
    apply List.isChain_iff_forall_rel_of_append_cons_cons.2
    rintro c d front back rfl rfl rfl
    exact single ⟨front, back, by simp⟩

theorem joined_word {s : Text} (word : '_' ∉ s) : Joined s := by
  refine ⟨?_, ?_, ?_⟩
  · intro opens
    exact word (List.mem_of_mem_head? opens)
  · intro closes
    exact word (List.mem_of_getLast? closes)
  · apply List.isChain_iff_forall_rel_of_append_cons_cons.2
    rintro c d front back rfl rfl
    simp at word

theorem Joined.join {a b : Text} (first : Joined a) (second : Joined b) (some : a ≠ []) (more : b ≠ []) :
    Joined (a ++ '_' :: b) := by
  obtain ⟨c, a, rfl⟩ := List.exists_cons_of_ne_nil some
  obtain ⟨d, b, rfl⟩ := List.exists_cons_of_ne_nil more
  refine ⟨first.opens, ?_, ?_⟩
  · rw [List.getLast?_append, List.getLast?_cons_cons, List.getLast?_cons]
    simpa [List.getLast?_cons] using second.closes
  · apply List.isChain_append.2
    refine ⟨first.apart, List.isChain_cons.2 ⟨?_, second.apart⟩, ?_⟩
    · intro e next _ same
      exact second.opens (same ▸ next)
    · intro e last f next same
      exact absurd (same ▸ last) first.closes

theorem Joined.cut {s : Text} (held : Joined s) (n : Int) : Joined (dropUnderscores (upTo n s)) := by
  have front := cut_begins n s
  refine ⟨?_, ?_, held.apart.prefix front⟩
  · intro opens
    obtain ⟨rest, whole⟩ := front
    apply held.opens
    rw [← whole, List.head?_append, opens]
    rfl
  · intro closes
    have filled : dropUnderscores (upTo n s) ≠ [] := by
      intro none
      simp [none] at closes
    rw [List.getLast?_eq_some_getLast filled] at closes
    exact List.rdropWhile_last_not (· == '_') (upTo n s) filled (beq_iff_eq.2 (Option.some.inj closes))

theorem joined_words {words : List Text} (each : ∀ w ∈ words, w ≠ [] ∧ '_' ∉ w) : Joined (Text.join "_" words) := by
  induction words with
  | nil => decide
  | cons w rest ih =>
    obtain ⟨⟨filled, word⟩, others⟩ := List.forall_mem_cons.1 each
    cases rest with
    | nil => simpa [Text.join, List.intercalate] using joined_word word
    | cons v rest =>
      have step : Text.join "_" (w :: v :: rest) = w ++ '_' :: Text.join "_" (v :: rest) := by
        simp [Text.join, List.intercalate]
      rw [step]
      apply (joined_word word).join (ih others) filled
      cases rest <;> simp [Text.join, List.intercalate, (others v List.mem_cons_self).1]

end Underscores

section Made

theorem join_runs_joined (raw : Text) : Joined (joinRuns raw) := by
  apply joined_words
  intro w run
  obtain ⟨filled, chars⟩ := runs_filled run
  refine ⟨filled, fun inside => ?_⟩
  exact absurd (chars '_' inside) (by decide)

theorem guard_start_joined (raw : Text) : Joined (guardStart {} (joinRuns raw)) := by
  have start : Joined (guardStart {} (joinRuns raw)) ∧ guardStart {} (joinRuns raw) ≠ [] := by
    refine guard_start_holds (P := fun key => Joined key ∧ key ≠ []) (by decide) ?_ ?_
    · exact fun filled => ⟨join_runs_joined raw, filled⟩
    · rintro word listed key ⟨held, filled⟩
      -- The words that are put in front hold no underscore, and one joins them to the key.
      have plain : ∀ word ∈ ["VAR".toList, "APP".toList], Joined word ∧ word ≠ [] := by decide
      obtain ⟨alone, some⟩ := plain word listed
      exact ⟨alone.join held some filled, List.append_ne_nil_of_left_ne_nil some _⟩
  exact start.1

theorem key_joined (raw : Text) : Joined (key {} raw) := key_holds (by decide) ((guard_start_joined raw).cut 255)

end Made

section Kept

theorem capital_no_digit {c : Char} (capital : isCapital c = true) : Text.isAsciiDigit c = false := by
  simp only [isCapital, Text.isAsciiDigit, Bool.and_eq_true, Bool.and_eq_false_iff, decide_eq_true_eq, decide_eq_false_iff_not,
    Char.le_def, UInt32.le_iff_toNat_le] at capital ⊢
  right
  intro digit
  exact absurd (Nat.le_trans capital.1 digit) (by decide)

/-- What a key is. -/
structure Proper (s : Text) : Prop where
  filled : s ≠ []
  chars : HasKeyChars s
  undigited : s.head?.any Text.isAsciiDigit = false
  opens : s.head? ≠ some '_'
  closes : s.getLast? ≠ some '_'
  single : ¬ "__".toList <:+: s
  short : s.length ≤ 255
  free : ¬ reserved <+: s

theorem key_proper (raw : Text) : Proper (key {} raw) := by
  have held := key_joined raw
  obtain ⟨c, r, whole, capital⟩ := key_opens raw
  refine ⟨?_, key_chars raw, ?_, held.opens, held.closes, (undoubled_iff _).1 held.apart, key_length raw, key_free raw⟩
  · rw [whole]
    exact List.cons_ne_nil c r
  · rw [whole]
    simp [capital_no_digit capital]

theorem key_char_below {c : Char} (named : (isKeyChar c || c == '_') = true) : c.toNat ≤ 95 := by
  simp only [isKeyChar, Text.isAsciiDigit, Bool.or_eq_true, Bool.and_eq_true, decide_eq_true_eq, beq_iff_eq, Char.le_def,
    UInt32.le_iff_toNat_le] at named
  rcases named with (⟨-, capital⟩ | ⟨-, digit⟩) | rfl
  · exact Nat.le_trans capital (by decide)
  · exact Nat.le_trans digit (by decide)
  · decide

theorem ascii_digit {c : Char} (ascii : c.toNat < 128) : Text.isDigit c = Text.isAsciiDigit c := by
  have unmarked : decide (128 ≤ c.toNat) = false := by simpa using ascii
  rw [Text.isDigit, Text.isDecimal, Text.decimalValue?, if_pos ascii, unmarked]
  cases Text.isAsciiDigit c <;> simp

theorem upper_kept {s : Text} (chars : HasKeyChars s) : s.upper = s := by
  have each : ∀ c ∈ s, Text.upperChar c = [c] := by
    intro c member
    have below := key_char_below (chars c member)
    have large : ¬ ('a'.val ≤ c.val ∧ c.val ≤ 'z'.val) := by
      rintro ⟨small, -⟩
      exact absurd (Nat.le_trans (UInt32.le_iff_toNat_le.1 small) below) (by decide)
    have kept : c.toUpper = c := dif_neg large
    rw [Text.upperChar, if_pos (by omega), kept]
  rw [Text.upper, List.flatMap_def, List.map_congr_left each, ← List.flatMap_def, List.flatMap_singleton']

theorem split_runs {s : Text} (chars : HasKeyChars s) : Text.splitWhere (fun c => !isKeyChar c) s = s.splitOn '_' := by
  induction s with
  | nil => simp [Text.splitWhere]
  | cons c r ih =>
    obtain ⟨here, rest⟩ := List.forall_mem_cons.1 chars
    have same : (!isKeyChar c) = (c == '_') := by
      by_cases mark : c = '_'
      · subst mark
        decide
      · simpa [mark, beq_false_of_ne mark] using here
    rw [Text.splitWhere, ih rest, List.splitOn_cons_eq_if_modifyHead, same]
    cases pieces : r.splitOn '_' with
    | nil => exact absurd pieces (List.splitOn_ne_nil '_' r)
    | cons w ws => rfl

theorem first_filled {c : Char} {r : Text} (word : c ≠ '_') (later : ∀ w ∈ ((c :: r).splitOn '_').tail, w ≠ []) :
    ∀ w ∈ (c :: r).splitOn '_', w ≠ [] := by
  rw [List.splitOn_cons_eq_if_modifyHead, if_neg (by simpa using word)] at later ⊢
  cases pieces : r.splitOn '_' with
  | nil => simp
  | cons w ws =>
    rw [pieces] at later
    exact List.forall_mem_cons.2 ⟨List.cons_ne_nil c w, later⟩

-- An empty piece behind the first would stand between two underscores or at the end.
theorem later_filled {c : Char} {r : Text} (closes : (c :: r).getLast? ≠ some '_')
    (apart : (c :: r).IsChain fun c d => c = '_' → d ≠ '_') : ∀ w ∈ ((c :: r).splitOn '_').tail, w ≠ [] := by
  induction r generalizing c with
  | nil =>
    have word : c ≠ '_' := by simpa using closes
    simp [List.splitOn_cons_eq_if_modifyHead, word]
  | cons d r ih =>
    obtain ⟨next, apart⟩ := List.isChain_cons_cons.1 apart
    rw [List.getLast?_cons_cons] at closes
    have rest := ih closes apart
    rw [List.splitOn_cons_eq_if_modifyHead]
    by_cases mark : c = '_'
    · rw [if_pos (by simpa using mark)]
      exact first_filled (next mark) rest
    · rw [if_neg (by simpa using mark), List.tail_modifyHead]
      exact rest

theorem Joined.pieces {s : Text} (held : Joined s) (filled : s ≠ []) : ∀ w ∈ s.splitOn '_', w ≠ [] := by
  obtain ⟨c, r, rfl⟩ := List.exists_cons_of_ne_nil filled
  exact first_filled (by simpa using held.opens) (later_filled held.closes held.apart)

variable {s : Text} (proper : Proper s)

include proper

theorem Proper.joined : Joined s := ⟨proper.opens, proper.closes, (undoubled_iff s).2 proper.single⟩

theorem Proper.runs : joinRuns s = s := by
  have all : (s.splitOn '_').filter (fun w => !w.isEmpty) = s.splitOn '_' := by
    apply List.filter_eq_self.2
    intro w piece
    simpa using proper.joined.pieces proper.filled w piece
  rw [joinRuns, upper_kept proper.chars, split_runs proper.chars, all]
  exact List.intercalate_splitOn '_'

theorem Proper.start : guardStart {} s = s := by
  have named : nameEmpty s = s := by simp [nameEmpty, proper.filled]
  have plain : ¬ s.head?.any Text.isDigit = true := by
    obtain ⟨c, r, rfl⟩ := List.exists_cons_of_ne_nil proper.filled
    have below := key_char_below (proper.chars c List.mem_cons_self)
    simpa [ascii_digit (c := c) (by omega)] using proper.undigited
  rw [guard_start_eq, named, markDigit, if_neg plain, markReserved, if_neg (mt List.isPrefixOf_iff_prefix.1 proper.free)]

theorem Proper.uncut : dropUnderscores (upTo 255 s) = s := by
  have whole : upTo 255 s = s := by
    rw [upTo, if_pos (by decide)]
    exact List.take_of_length_le proper.short
  rw [whole]
  apply List.rdropWhile_eq_self_iff.2
  intro filled mark
  apply proper.closes
  rw [List.getLast?_eq_some_getLast filled, beq_iff_eq.1 mark]

theorem Proper.kept : key {} s = s := by
  have cut := proper.uncut
  rw [key, proper.runs, proper.start]
  dsimp only
  rw [cut, if_neg (by simpa using proper.filled)]

omit proper in
/-- A key has the form of keys and is its own key, and so is every text of that form; no other text comes out. -/
theorem key_projects (s : Text) : Proper (key {} s) ∧ key {} (key {} s) = key {} s ∧ (Proper s ↔ key {} s = s) ∧
    ((∃ raw, key {} raw = s) ↔ key {} s = s) := by
  have own : key {} (key {} s) = key {} s := (key_proper s).kept
  refine ⟨key_proper s, own, ⟨Proper.kept, ?_⟩, ?_, ?_⟩
  · intro same
    rw [← same]
    exact key_proper s
  · rintro ⟨raw, rfl⟩
    exact (key_proper raw).kept
  · intro same
    exact ⟨s, same⟩

-- A letter that has two capitals, and a beginning that is kept for the target.
example : key {} "ci--straße_9_".toList = "APP_CI_STRASSE_9".toList := by decide +kernel

end Kept

section Accepted

/- Which ids and which lists of keys are found valid: those of the form of keys, and besides them the ones
   with a line feed behind a key, which the form lets pass. -/
variable {s : Text}

/-- A key, perhaps with a line feed behind it. -/
def EndsAsKey (s : Text) : Prop := IsKey s ∨ ∃ key, IsKey key ∧ s = key ++ ['\n']

theorem key_of_form (c : Char) (r : Text)
    (form : ((('A' ≤ c && c ≤ 'Z') || c == '_') && r.all fun d => isKeyChar d || d == '_') = true) : IsKey (c :: r) := by
  obtain ⟨first, rest⟩ := Bool.and_eq_true_iff.1 form
  exact ⟨c, r, rfl, first, List.all_eq_true.1 rest⟩

-- The line feed is taken off before the form is looked at.
theorem form_ended (body : Text) : (if (body ++ ['\n']).getLast? == some '\n' then (body ++ ['\n']).dropLast
    else body ++ ['\n']) = body := by
  simp

theorem key_form_iff (s : Text) : hasKeyForm s = true ↔ EndsAsKey s := by
  constructor
  · intro form
    unfold hasKeyForm at form
    by_cases ended : s.getLast? = some '\n'
    · obtain ⟨body, rfl⟩ := List.getLast?_eq_some_iff.1 ended
      rw [form_ended] at form
      cases body with
      | nil => cases form
      | cons c r => exact .inr ⟨c :: r, key_of_form c r form, rfl⟩
    · have kept : (if s.getLast? == some '\n' then s.dropLast else s) = s := by simp [ended]
      rw [kept] at form
      cases s with
      | nil => cases form
      | cons c r => exact .inl (key_of_form c r form)
  · rintro (held | ⟨key, held, rfl⟩)
    · exact held.form
    · obtain ⟨c, r, rfl, first, rest⟩ := held
      have all : (r.all fun d => isKeyChar d || d == '_') = true := List.all_eq_true.2 rest
      unfold hasKeyForm
      rw [form_ended]
      exact Bool.and_eq_true_iff.2 ⟨first, all⟩

theorem IsKey.chars (held : IsKey s) : HasKeyChars s := by
  obtain ⟨c, r, rfl, first, rest⟩ := held
  refine List.forall_mem_cons.2 ⟨?_, rest⟩
  rcases Bool.or_eq_true_iff.1 first with capital | bar
  · exact Bool.or_eq_true_iff.2 (.inl (Bool.or_eq_true_iff.2 (.inl capital)))
  · exact Bool.or_eq_true_iff.2 (.inr bar)

-- Capitals leave such a text as it is.
theorem EndsAsKey.upper (held : EndsAsKey s) : s.upper = s := by
  rcases held with held | ⟨key, held, rfl⟩
  · exact upper_kept held.chars
  · have mark : Text.upper ['\n'] = ['\n'] := by decide
    have split : Text.upper (key ++ ['\n']) = key.upper ++ Text.upper ['\n'] := List.flatMap_append
    rw [split, mark, upper_kept held.chars]

theorem check_id_valid_iff (p : KeyPolicy) (id : Text) : (p.checkId id).valid = true ↔
    EndsAsKey id ∧ id.length ≤ p.maxLength ∧ ¬ p.reservedPrefix <+: id := by
  have whole : (p.checkId id).valid = true ↔
      hasKeyForm id = true ∧ id.length ≤ p.maxLength ∧ ¬ p.reservedPrefix <+: id.upper := by
    simp [checkId, List.append_eq_nil_iff, say_if_eq_nil_iff, ← Bool.not_eq_true, List.isPrefixOf_iff_prefix]
  rw [whole, key_form_iff]
  refine and_congr_right fun held => ?_
  rw [held.upper]

/-- An id is valid just when it is a key, or a key with a line feed behind it, that is neither too long nor reserved;
    keys are valid together just when they are apart and each is such a text that is not too long. -/
theorem keys_accepted_iff (id : Text) (specs : List VariableSpec) :
    ((checkId {} id).valid = true ↔ EndsAsKey id ∧ id.length ≤ 255 ∧ ¬ "CI_".toList <+: id) ∧
    ((validate {} specs).valid = true ↔
      (specs.map (·.key)).Nodup ∧ ∀ v ∈ specs, EndsAsKey v.key ∧ v.key.length ≤ 255) := by
  constructor
  · rw [check_id_valid_iff {} id]
    exact and_congr_right fun _ => and_congr_left fun _ => Int.ofNat_le
  · have silent : (validate {} specs).valid = true ↔ (validate {} specs).errors = [] := List.isEmpty_iff
    rw [silent, validate_eq_nil_iff]
    refine and_congr_right fun _ => forall₂_congr fun v _ => ?_
    rw [key_form_iff]
    exact and_congr_right fun _ => Int.ofNat_le

def endedSpec : VariableSpec := ⟨"token", "TOKEN\n", .text, true, true, "*", [], "token"⟩

/-- A line feed is no character of a key, and yet it is accepted at the end. -/
theorem ended_key_accepted : (checkId {} "TOKEN\n").valid = true ∧ (validate {} [endedSpec]).valid = true ∧
    ¬ HasKeyChars "TOKEN\n" := by
  decide +kernel

end Accepted
end PipelineMigration.KeyPolicy
