import PipelineMigration.Job.Naming
import Mathlib.Data.List.Nodup
import Mathlib.Data.List.Perm.Subperm
import Mathlib.Tactic.Tauto
import PipelineMigration.Proofs.Text.Trim
set_option autoImplicit false

/- Slugs stay apart. Of the slug and its numbered forms one more is tried than names are taken, and
   they are pairwise distinct, so one of them is free whatever the other names slug to. -/
namespace PipelineMigration.Text

theorem ofNat_injective {m n : Nat} (same : ofNat m = ofNat n) : m = n := by
  have digits := congrArg (fun ds => Nat.ofDigitChars 10 ds 0) same
  simpa [ofNat] using digits

end PipelineMigration.Text

namespace PipelineMigration.Job

def slugCandidates (count : Nat) (s : Text) : List Text :=
  s :: (List.range count).map fun i => s ++ '-' :: Text.ofNat (i + 2)

theorem freshSlug_eq (taken : List Text) (s : Text) : freshSlug taken s =
    ((slugCandidates taken.length s).find? fun candidate => !taken.contains candidate).getD s := rfl

theorem slug_candidates_nodup (count : Nat) (s : Text) : (slugCandidates count s).Nodup := by
  refine List.nodup_cons.2 ⟨?_, List.nodup_range.map ?_⟩
  · intro member
    obtain ⟨i, -, same⟩ := List.mem_map.1 member
    have lengths := congrArg List.length same
    simp at lengths
  · intro i j same
    have numbers := (List.cons.inj (List.append_cancel_left same)).2
    exact Nat.add_right_cancel (Text.ofNat_injective numbers)

theorem fresh_slug_free (taken : List Text) (s : Text) : freshSlug taken s ∉ taken := by
  rw [freshSlug_eq]
  cases found : (slugCandidates taken.length s).find? fun candidate => !taken.contains candidate with
  | some candidate => simpa using List.find?_some found
  | none =>
    have inside : slugCandidates taken.length s ⊆ taken := by
      intro candidate member
      simpa using List.find?_eq_none.1 found candidate member
    have bound := (List.subperm_of_subset (slug_candidates_nodup taken.length s) inside).length_le
    simp only [slugCandidates, List.length_cons, List.length_map, List.length_range] at bound
    omega

theorem slugs_from_free (taken names : List Text) : ∀ s ∈ slugsFrom taken names, s ∉ taken := by
  induction names generalizing taken with
  | nil => simp [slugsFrom]
  | cons name rest ih =>
    intro s member
    rcases List.mem_cons.1 member with rfl | later
    · exact fresh_slug_free taken (slug name)
    · exact fun present => ih _ s later (List.mem_cons_of_mem _ present)

theorem slugs_from_nodup (taken names : List Text) : (slugsFrom taken names).Nodup := by
  induction names generalizing taken with
  | nil => exact List.nodup_nil
  | cons name rest ih =>
    refine List.nodup_cons.2 ⟨fun again => ?_, ih _⟩
    exact slugs_from_free _ rest _ again List.mem_cons_self

theorem collapse_kept (keep : Char → Bool) (mark : Char) (marked : keep mark = true) (s : Text) :
    ∀ c ∈ collapse keep mark s, keep c = true := by
  induction s with
  | nil => exact fun _ none => nomatch none
  | cons c r ih =>
    unfold collapse
    dsimp only
    split
    · rename_i kept
      exact List.forall_mem_cons.2 ⟨kept, ih⟩
    · split
      · exact ih
      · exact List.forall_mem_cons.2 ⟨marked, ih⟩

theorem variable_char_name (c : Char) (kept : isVariableChar c = true) :
    Text.isIdentifierRest c = true ∧ (Text.isAsciiDigit c = true ∨ Text.isIdentifierStart c = true) := by
  unfold isVariableChar at kept
  unfold Text.isIdentifierRest Text.isIdentifierStart Text.isAsciiLetter
  simp only [Bool.or_eq_true, Bool.and_eq_true] at kept ⊢
  tauto

-- The name of a variable is an identifier, whatever it is made from.
theorem variable_name_identifier (name : Text) : Text.isIdentifier (variableName name) = true := by
  have kept : ∀ c ∈ Text.trimBy (· == '_') (collapse isVariableChar '_' name.upper), isVariableChar c = true :=
    fun c member => collapse_kept isVariableChar '_' (by decide) _ c (Text.trim_by_subset _ _ c member)
  unfold variableName
  dsimp only
  generalize Text.trimBy (· == '_') (collapse isVariableChar '_' name.upper) = key at kept ⊢
  have rest : ∀ c ∈ key, Text.isIdentifierRest c = true := fun c member => (variable_char_name c (kept c member)).1
  split
  · have begins : Text.isIdentifier ("VAR_".toList ++ key) = ("AR_".toList ++ key).all Text.isIdentifierRest := rfl
    rw [begins, List.all_append, List.all_eq_true.2 rest]
    decide
  · rename_i plain
    cases key with
    | nil => exact absurd rfl plain
    | cons c r =>
      have letter : Text.isIdentifierStart c = true := by
        refine (variable_char_name c (kept c List.mem_cons_self)).2.resolve_left fun digit => plain ?_
        simp [Text.digit_of_ascii digit]
      exact Bool.and_eq_true_iff.2
        ⟨letter, List.all_eq_true.2 fun x member => rest x (List.mem_cons_of_mem c member)⟩

theorem length_slugs_from (taken names : List Text) :
    (slugsFrom taken names).length = names.length := by
  induction names generalizing taken with
  | nil => rfl
  | cons name rest ih => simp [slugsFrom, ih]

end PipelineMigration.Job
