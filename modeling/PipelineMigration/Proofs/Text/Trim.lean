import Mathlib.Data.List.DropRight
import PipelineMigration.Text.Basic
set_option autoImplicit false

/- Texts with characters of a class taken off at their ends: what is left, and which texts stay as they are. -/
namespace PipelineMigration.Text

variable {p : Char → Bool} {s : Text} {c : Char}

theorem trim_left_head : ∀ d ∈ (trimLeftBy p s).head?, p d = false := by
  intro d first
  have kept := List.head?_dropWhile_not p s
  have same : (s.dropWhile p).head? = some d := first
  rwa [same] at kept

theorem trim_right_last : ∀ d ∈ (trimRightBy p s).getLast?, p d = false := by
  intro d last
  obtain ⟨filled, rfl⟩ := List.mem_getLast?_eq_getLast last
  exact Bool.eq_false_iff.2 (List.rdropWhile_last_not p s filled)

theorem trim_right_front : trimRightBy p s <+: s := List.rdropWhile_prefix p s

theorem trim_right_self (last : ∀ d ∈ s.getLast?, p d = false) : trimRightBy p s = s := by
  refine List.rdropWhile_eq_self_iff.2 fun filled => ?_
  simpa using last _ (List.getLast?_eq_getLast_of_ne_nil filled)

theorem trim_right_self_iff : trimRightBy p s = s ↔ ∀ d ∈ s.getLast?, p d = false :=
  ⟨fun same => same ▸ trim_right_last, trim_right_self⟩

-- Two cuts that together leave a text as it is leave it so each.
theorem trim_right_twice {q : Char → Bool} (same : trimRightBy q (trimRightBy p s) = s) : trimRightBy p s = s := by
  have outer := (trim_right_front (p := q) (s := trimRightBy p s)).length_le
  rw [same] at outer
  exact trim_right_front.eq_of_length_le outer

theorem trim_left_self (first : ∀ d ∈ s.head?, p d = false) : trimLeftBy p s = s := by
  cases s with
  | nil => rfl
  | cons d t => simpa [trimLeftBy] using first d rfl

-- What is cut off at the right begins as the whole.
theorem trim_right_head : ∀ d ∈ (trimRightBy p s).head?, d ∈ s.head? := by
  intro d first
  obtain ⟨t, same⟩ := List.head?_eq_some_iff.1 first
  obtain ⟨u, whole⟩ := trim_right_front (p := p) (s := s)
  rw [← whole, same]
  rfl

-- Nothing is cut off in front of a character that is not to be cut off.
theorem trim_right_behind (u v : Text) (kept : p c = false) : trimRightBy p (u ++ c :: v) = u ++ c :: trimRightBy p v := by
  have stop : (c :: u.reverse).dropWhile p = c :: u.reverse := List.dropWhile_cons_of_neg (by simp [kept])
  unfold trimRightBy
  rw [List.reverse_append, List.reverse_cons, List.append_assoc, List.singleton_append, List.dropWhile_append, stop]
  split
  · rename_i none
    simp [List.isEmpty_iff.1 none]
  · simp

theorem trim_by_self (first : ∀ d ∈ s.head?, p d = false) (last : ∀ d ∈ s.getLast?, p d = false) : trimBy p s = s := by
  rw [trimBy, trim_left_self first, trim_right_self last]

theorem trim_by_head : ∀ d ∈ (trimBy p s).head?, p d = false := fun d first => trim_left_head d (trim_right_head d first)

theorem trim_by_last : ∀ d ∈ (trimBy p s).getLast?, p d = false := trim_right_last

theorem trim_by_stable : trimBy p (trimBy p s) = trimBy p s := trim_by_self trim_by_head trim_by_last

theorem trim_by_none (none : ∀ c ∈ s, p c = false) : trimBy p s = s :=
  trim_by_self (fun c first => none c (List.mem_of_mem_head? first)) fun c last => none c (List.mem_of_mem_getLast? last)

theorem trim_by_subset (p : Char → Bool) (s : Text) : ∀ c ∈ trimBy p s, c ∈ s := fun _ member =>
  (List.dropWhile_sublist p).subset (trim_right_front.subset member)

-- A run of a class in front of a character outside it.
theorem run_taken {run rest : Text} (all : ∀ d ∈ run, p d = true) (ends : ∀ d ∈ rest.head?, p d = false) :
    (run ++ rest).takeWhile p = run ∧ (run ++ rest).dropWhile p = rest := by
  have stop : rest.takeWhile p = [] ∧ rest.dropWhile p = rest := by
    cases rest with
    | nil => exact ⟨rfl, rfl⟩
    | cons d t =>
      have other : p d = false := ends d rfl
      simp [other]
  rw [List.takeWhile_append_of_pos all, List.dropWhile_append_of_pos all, stop.1, stop.2, List.append_nil]
  exact ⟨rfl, rfl⟩

end PipelineMigration.Text
