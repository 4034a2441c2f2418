import PipelineMigration.Proofs.Pattern.Taken
set_option autoImplicit false

/- What a pattern consumes and what it captures are made of the characters that it names. -/
namespace PipelineMigration.Pattern

/-- Whether all characters that a pattern names belong to an alphabet. -/
def Uses (A : Char → Prop) : Pattern → Prop
  | empty => True
  | one p => ∀ c, p c = true → A c
  | exactly s => ∀ c ∈ s, A c
  | andThen a b => a.Uses A ∧ b.Uses A
  | orElse a b => a.Uses A ∧ b.Uses A
  | longest _ p => ∀ c, p c = true → A c
  | shortest _ p => ∀ c, p c = true → A c
  | several a => a.Uses A
  | capture _ a => a.Uses A
  | around _ => True

/-- Whether all characters that a pattern names inside a slot belong to the alphabet of the slot. -/
def Holds (B : Nat → Char → Prop) : Pattern → Prop
  | andThen a b => a.Holds B ∧ b.Holds B
  | orElse a b => a.Holds B ∧ b.Holds B
  | several a => a.Holds B
  | capture slot a => a.Uses (B slot) ∧ a.Holds B
  | _ => True

theorem append_uses (A : Char → Prop) (a b : Pattern) : (a ++ b).Uses A ↔ a.Uses A ∧ b.Uses A := Iff.rfl

theorem append_holds (B : Nat → Char → Prop) (a b : Pattern) : (a ++ b).Holds B ↔ a.Holds B ∧ b.Holds B := Iff.rfl

section Consumed

variable {A : Char → Prop} {B : Nat → Char → Prop} {before : Option Char} {taken rest : Text} {k : Texts}

-- What is taken is made of the characters that are named.
theorem takes_uses (a : Pattern) (uses : a.Uses A) (way : a.Takes before taken rest k) : ∀ c ∈ taken, A c := by
  induction a generalizing before taken rest k with
  | empty =>
    obtain ⟨rfl, -⟩ := way
    exact List.forall_mem_nil _
  | one p =>
    obtain ⟨⟨c, named, rfl⟩, -⟩ := way
    exact List.forall_mem_singleton.2 (uses c named)
  | exactly s =>
    obtain ⟨rfl, -⟩ := way
    exact uses
  | andThen a b first second =>
    obtain ⟨u, v, l, m, left, right, rfl, -⟩ := way
    exact List.forall_mem_append.2 ⟨first uses.1 left, second uses.2 right⟩
  | orElse a b first second =>
    rcases way with way | way
    · exact first uses.1 way
    · exact second uses.2 way
  | longest least p => exact fun c member => uses c (way.1.2 c member)
  | shortest least p => exact fun c member => uses c (way.1.2 c member)
  | several a ih =>
    change Repeats a.Takes before taken rest k at way
    induction way with
    | once filled first => exact ih uses first
    | again filled first more later => exact List.forall_mem_append.2 ⟨ih uses first, later⟩
  | capture slot a ih =>
    obtain ⟨l, way, -⟩ := way
    exact ih uses way
  | around test =>
    obtain ⟨-, rfl, -⟩ := way
    exact List.forall_mem_nil _

-- What is captured in a slot was taken inside it.
theorem takes_holds (a : Pattern) (holds : a.Holds B) (way : a.Takes before taken rest k) :
    ∀ e ∈ k, ∀ c ∈ e.2, B e.1 c := by
  induction a generalizing before taken rest k with
  | andThen a b first second =>
    obtain ⟨u, v, l, m, left, right, -, rfl⟩ := way
    exact List.forall_mem_append.2 ⟨second holds.2 right, first holds.1 left⟩
  | orElse a b first second =>
    rcases way with way | way
    · exact first holds.1 way
    · exact second holds.2 way
  | several a ih =>
    change Repeats a.Takes before taken rest k at way
    induction way with
    | once filled first => exact ih holds first
    | again filled first more later => exact List.forall_mem_append.2 ⟨later, ih holds first⟩
  | capture slot a ih =>
    obtain ⟨l, way, rfl⟩ := way
    exact List.forall_mem_cons.2 ⟨takes_uses a holds.1 way, ih holds.2 way⟩
  | empty => simp [way.2]
  | one p => simp [way.2]
  | exactly s => simp [way.2]
  | longest least p => simp [way.2]
  | shortest least p => simp [way.2]
  | around test => simp [way.2.2]

theorem text_in_holds (each : ∀ e ∈ k, ∀ c ∈ e.2, B e.1 c) (slot : Nat) : ∀ c ∈ textIn k slot, B slot c := by
  unfold textIn
  cases found : k.find? (·.1 == slot) with
  | none => exact List.forall_mem_nil _
  | some e =>
    have same : e.1 = slot := by simpa using List.find?_some found
    exact same ▸ each e (List.mem_of_find?_eq_some found)

-- A text that a pattern matches to its very end is made of the pattern's characters.
theorem whole_match_uses (a : Pattern) (uses : a.Uses A) (s : Text)
    (found : ((a ++ veryEnd).matchStart s).isSome = true) : ∀ c ∈ s, A c := by
  obtain ⟨m, same⟩ := Option.isSome_iff_exists.1 found
  obtain ⟨taken, rest, spans, whole, way, -⟩ := run_passed (a ++ veryEnd) (Place.start s) [] _ m same
  obtain ⟨u, v, k, l, way, ⟨ends, rfl, -⟩, rfl, -⟩ := way
  obtain rfl : rest = [] := List.isEmpty_iff.1 ends
  obtain rfl : s = u := by simpa [Place.start] using whole
  exact takes_uses a uses way

theorem match_captured (a : Pattern) (holds : a.Holds B) (here : Place) (m : Match)
    (found : a.matchAt here = some m) (slot : Nat) : ∀ c ∈ m.captured slot, B slot c := by
  obtain ⟨taken, rest, spans, -, way, accepted⟩ := run_passed a here [] _ m found
  obtain rfl := Option.some.inj accepted
  rw [captured_told, List.append_nil]
  exact text_in_holds (takes_holds a holds way) slot

theorem first_match_at (a : Pattern) (before : Option Char) (index : Nat) (s : Text) (m : Match)
    (found : a.firstMatchFrom before index s = some m) : ∃ here, a.matchAt here = some m := by
  induction s generalizing before index with
  | nil => exact ⟨_, found⟩
  | cons c r ih =>
    rw [firstMatchFrom] at found
    split at found
    · rename_i other same
      exact ⟨_, same.trans found⟩
    · exact ih _ _ found

-- What the first match of a pattern holds in a slot is made of the characters named there.
theorem first_match_captured (a : Pattern) (holds : a.Holds B) (s : Text) (m : Match)
    (found : a.firstMatch s = some m) (slot : Nat) : ∀ c ∈ m.captured slot, B slot c := by
  obtain ⟨here, same⟩ := first_match_at a none 0 s m found
  exact match_captured a holds here m same slot

-- What any match of a pattern holds in a slot is made of the characters named there.
theorem all_matches_captured (a : Pattern) (holds : a.Holds B) (s : Text) (m : Match) (member : m ∈ a.allMatches s)
    (slot : Nat) : ∀ c ∈ m.captured slot, B slot c := by
  obtain ⟨u, v, -, -, same⟩ := match_from_place none 0 0 s member
  exact match_captured a holds _ m same slot

end Consumed
end PipelineMigration.Pattern
