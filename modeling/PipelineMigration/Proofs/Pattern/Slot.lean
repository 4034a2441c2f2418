import PipelineMigration.Proofs.Pattern.Consumed
set_option autoImplicit false

/- What a slot holds. It was taken by a pattern that the slot stands around; and where all ways to match pass the
   slot, and all that stands in it takes something, no match leaves it empty. -/
namespace PipelineMigration.Pattern

/-- The fewest characters that can be taken. -/
def fewest : Pattern → Nat
  | empty => 0
  | one _ => 1
  | exactly s => s.length
  | andThen a b => a.fewest + b.fewest
  | orElse a b => min a.fewest b.fewest
  | longest least _ => least
  | shortest least _ => least
  | several a => a.fewest
  | capture _ a => a.fewest
  | around _ => 0

/-- The patterns that a slot stands around. -/
def inSlot (slot : Nat) : Pattern → List Pattern
  | andThen a b => a.inSlot slot ++ b.inSlot slot
  | orElse a b => a.inSlot slot ++ b.inSlot slot
  | several a => a.inSlot slot
  | capture own a => if own = slot then a :: a.inSlot slot else a.inSlot slot
  | _ => []

/-- Whether all ways to match pass a slot. -/
def marks (slot : Nat) : Pattern → Bool
  | andThen a b => a.marks slot || b.marks slot
  | orElse a b => a.marks slot && b.marks slot
  | several a => a.marks slot
  | capture own a => own == slot || a.marks slot
  | _ => false

def fills (slot : Nat) (a : Pattern) : Bool := a.marks slot && (a.inSlot slot).all fun b => 0 < b.fewest

section Ways

variable {before : Option Char} {taken rest : Text} {k : Texts} {slot : Nat}

theorem fewest_le (a : Pattern) (way : a.Takes before taken rest k) : a.fewest ≤ taken.length := by
  induction a generalizing before taken rest k with
  | empty => exact Nat.zero_le _
  | one p =>
    obtain ⟨⟨c, -, rfl⟩, -⟩ := way
    exact Nat.le_refl 1
  | exactly s =>
    obtain ⟨rfl, -⟩ := way
    exact Nat.le_refl _
  | andThen a b first second =>
    obtain ⟨u, v, l, m, left, right, rfl, -⟩ := way
    rw [fewest, List.length_append]
    exact Nat.add_le_add (first left) (second right)
  | orElse a b first second =>
    rcases way with way | way
    · exact Nat.le_trans (Nat.min_le_left _ _) (first way)
    · exact Nat.le_trans (Nat.min_le_right _ _) (second way)
  | longest least p => exact way.1.1
  | shortest least p => exact way.1.1
  | several a ih =>
    cases way with
    | once filled first => exact ih first
    | again filled first more =>
      rw [List.length_append]
      exact Nat.le_add_right_of_le (ih first)
  | capture slot a ih =>
    obtain ⟨l, way, -⟩ := way
    exact ih way
  | around test => exact Nat.zero_le _

theorem caught_taken (a : Pattern) (way : a.Takes before taken rest k) {text : Text} (caught : (slot, text) ∈ k) :
    ∃ b ∈ a.inSlot slot, ∃ before rest l, b.Takes before text rest l := by
  induction a generalizing before taken rest k with
  | andThen a b first second =>
    obtain ⟨u, v, l, m, left, right, -, rfl⟩ := way
    rcases List.mem_append.1 caught with later | earlier
    · obtain ⟨c, member, held⟩ := second right later
      exact ⟨c, List.mem_append_right _ member, held⟩
    · obtain ⟨c, member, held⟩ := first left earlier
      exact ⟨c, List.mem_append_left _ member, held⟩
  | orElse a b first second =>
    rcases way with way | way
    · obtain ⟨c, member, held⟩ := first way caught
      exact ⟨c, List.mem_append_left _ member, held⟩
    · obtain ⟨c, member, held⟩ := second way caught
      exact ⟨c, List.mem_append_right _ member, held⟩
  | several a ih =>
    -- What one of the repetitions captures, the first or a later one, is among all that is captured.
    change Repeats a.Takes before taken rest k at way
    induction way with
    | once filled first => exact ih first caught
    | again filled first more again =>
      rcases List.mem_append.1 caught with later | earlier
      · exact again later
      · exact ih first earlier
  | capture own a ih =>
    obtain ⟨l, way, rfl⟩ := way
    rw [inSlot]
    rcases List.mem_cons.1 caught with same | inner
    · obtain ⟨rfl, rfl⟩ := Prod.mk.inj same
      rw [if_pos rfl]
      exact ⟨a, List.mem_cons_self, before, rest, l, way⟩
    · obtain ⟨c, member, held⟩ := ih way inner
      refine ⟨c, ?_, held⟩
      split
      · exact List.mem_cons_of_mem a member
      · exact member
  | empty => simp [way.2] at caught
  | one p => simp [way.2] at caught
  | exactly s => simp [way.2] at caught
  | longest least p => simp [way.2] at caught
  | shortest least p => simp [way.2] at caught
  | around test => simp [way.2.2] at caught

theorem marks_caught (a : Pattern) (marked : a.marks slot = true) (way : a.Takes before taken rest k) :
    ∃ text, (slot, text) ∈ k := by
  induction a generalizing before taken rest k with
  | andThen a b first second =>
    obtain ⟨u, v, l, m, left, right, -, rfl⟩ := way
    rcases Bool.or_eq_true_iff.1 marked with marked | marked
    · obtain ⟨text, caught⟩ := first marked left
      exact ⟨text, List.mem_append_right m caught⟩
    · obtain ⟨text, caught⟩ := second marked right
      exact ⟨text, List.mem_append_left l caught⟩
  | orElse a b first second =>
    obtain ⟨left, right⟩ := Bool.and_eq_true_iff.1 marked
    rcases way with way | way
    · exact first left way
    · exact second right way
  | several a ih =>
    -- Once is enough, and the first time is always there.
    cases way with
    | once filled first => exact ih marked first
    | again filled first more =>
      obtain ⟨text, caught⟩ := ih marked first
      exact ⟨text, List.mem_append_right _ caught⟩
  | capture own a ih =>
    obtain ⟨l, way, rfl⟩ := way
    rcases Bool.or_eq_true_iff.1 marked with same | marked
    · exact ⟨taken, by simp [beq_iff_eq.1 same]⟩
    · obtain ⟨text, caught⟩ := ih marked way
      exact ⟨text, List.mem_cons_of_mem _ caught⟩
  | _ => cases marked

end Ways

section Matches

variable {a : Pattern} {slot : Nat} {m : Match}

theorem text_in_caught {k : Texts} {text : Text} (caught : (slot, text) ∈ k) : (slot, textIn k slot) ∈ k := by
  have there : (k.find? (·.1 == slot)).isSome = true := List.find?_isSome.2 ⟨(slot, text), caught, beq_self_eq_true slot⟩
  obtain ⟨e, first⟩ := Option.isSome_iff_exists.1 there
  have own : e.1 = slot := by simpa using List.find?_some first
  rw [textIn, first, ← own]
  exact List.mem_of_find?_eq_some first

theorem captured_taken (marked : a.marks slot = true) {here : Place} (found : a.matchAt here = some m) :
    ∃ b ∈ a.inSlot slot, ∃ before rest l, b.Takes before (m.captured slot) rest l := by
  obtain ⟨taken, rest, spans, -, way, accepted⟩ := run_passed a here [] _ m found
  obtain rfl := Option.some.inj accepted
  obtain ⟨text, caught⟩ := marks_caught a marked way
  rw [captured_told, List.append_nil]
  exact caught_taken a way (text_in_caught caught)

-- No match leaves a slot empty that is always passed and always filled.
theorem captured_filled (filled : a.fills slot = true) {here : Place} (found : a.matchAt here = some m) :
    m.captured slot ≠ [] := by
  obtain ⟨marked, each⟩ := Bool.and_eq_true_iff.1 filled
  obtain ⟨b, inside, before, rest, l, way⟩ := captured_taken marked found
  have some : 0 < b.fewest := by simpa using List.all_eq_true.1 each b inside
  exact List.length_pos_iff.1 (Nat.lt_of_lt_of_le some (fewest_le b way))

theorem first_match_filled (filled : a.fills slot = true) {s : Text} (found : a.firstMatch s = some m) :
    m.captured slot ≠ [] := by
  obtain ⟨here, same⟩ := first_match_at a none 0 s m found
  exact captured_filled filled same

theorem all_matches_filled (filled : a.fills slot = true) {s : Text} (member : m ∈ a.allMatches s) :
    m.captured slot ≠ [] := by
  obtain ⟨u, v, -, -, same⟩ := match_from_place none 0 0 s member
  exact captured_filled filled same

end Matches
end PipelineMigration.Pattern
