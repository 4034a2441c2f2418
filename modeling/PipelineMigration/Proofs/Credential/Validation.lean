import PipelineMigration.Credential.Validation
import PipelineMigration.Proofs.Credential.Resolution
set_option autoImplicit false

/- Planned keys pass their own validation. Whatever the credentials are called and whatever keys are asked for, no two
   keys are the same, each has the form of a key from its first character to its last, and none is too long. -/
namespace PipelineMigration

namespace KeyPolicy

section Reports

theorem say_if_eq_nil_iff {problem : Bool} {s : Text} : sayIf problem s = [] ↔ problem = false := by
  cases problem
  · exact iff_of_true rfl rfl
  · exact iff_of_false (List.cons_ne_nil _ _) Bool.noConfusion

theorem key_errors_eq_nil_iff (p : KeyPolicy) (seen : Bool) (key : Text) :
    p.keyErrors seen key = [] ↔ seen = false ∧ hasKeyForm key = true ∧ key.length ≤ p.maxLength := by
  unfold keyErrors
  rw [List.append_eq_nil_iff, List.append_eq_nil_iff, say_if_eq_nil_iff, say_if_eq_nil_iff, say_if_eq_nil_iff, and_assoc,
    Bool.not_eq_false', decide_eq_false_iff_not, Int.not_lt]

-- Keys have no errors just when they are new, apart from each other, of the form of keys and not too long.
theorem errors_from_eq_nil_iff (p : KeyPolicy) (seen keys : List Text) : p.errorsFrom seen keys = [] ↔
    keys.Nodup ∧ ∀ key ∈ keys, key ∉ seen ∧ hasKeyForm key = true ∧ key.length ≤ p.maxLength := by
  induction keys generalizing seen with
  | nil => exact iff_of_true rfl ⟨List.nodup_nil, List.forall_mem_nil _⟩
  | cons key rest ih =>
    have fresh : seen.contains key = false ↔ key ∉ seen := by simp
    rw [errorsFrom, List.append_eq_nil_iff, key_errors_eq_nil_iff, ih, fresh, List.nodup_cons, List.forall_mem_cons]
    constructor
    · rintro ⟨here, apart, later⟩
      refine ⟨⟨fun again => (later key again).1 List.mem_cons_self, apart⟩, here, fun other member => ?_⟩
      obtain ⟨new, sound⟩ := later other member
      exact ⟨fun before => new (List.mem_cons_of_mem _ before), sound⟩
    · rintro ⟨⟨once, apart⟩, here, later⟩
      refine ⟨here, apart, fun other member => ?_⟩
      obtain ⟨new, sound⟩ := later other member
      refine ⟨fun before => ?_, sound⟩
      rcases List.mem_cons.1 before with rfl | before
      · exact once member
      · exact new before

-- A report is without errors just when no two keys are the same, all have the form of keys and none is too long.
theorem validate_eq_nil_iff (p : KeyPolicy) (specs : List VariableSpec) : (p.validate specs).errors = [] ↔
    (specs.map (·.key)).Nodup ∧ ∀ v ∈ specs, hasKeyForm v.key = true ∧ v.key.length ≤ p.maxLength := by
  refine (errors_from_eq_nil_iff p [] _).trans (and_congr_right fun _ => ?_)
  rw [List.forall_mem_map]
  exact forall₂_congr fun v _ => and_iff_right List.not_mem_nil

end Reports

section Beginnings

def isCapital (c : Char) : Bool := 'A' ≤ c && c ≤ 'Z'

/-- A capital or an underscore and then, up to the last character, capitals, digits and underscores. -/
def IsKey (s : Text) : Prop := ∃ c r, s = c :: r ∧ (isCapital c || c == '_') = true ∧ HasKeyChars r

-- The form that a report asks for lets a line feed pass at the end; the form of a key does not.
theorem IsKey.form {s : Text} (held : IsKey s) : hasKeyForm s = true := by
  obtain ⟨c, r, rfl, first, rest⟩ := held
  have unended : ((c :: r).getLast? == some '\n') = false := by
    refine beq_eq_false_iff_ne.2 fun last => ?_
    rcases List.mem_cons.1 (List.mem_of_getLast? last) with rfl | later
    · exact absurd first (by decide)
    · exact absurd (rest _ later) (by decide)
  unfold hasKeyForm
  rw [unended]
  exact Bool.and_eq_true_iff.2 ⟨first, List.all_eq_true.2 rest⟩

/-- A text whose first character is a capital, which no cut takes away. -/
def OpensCapital (s : Text) : Prop := ∃ c r, s = c :: r ∧ isCapital c = true

theorem OpensCapital.append {s : Text} (opens : OpensCapital s) (t : Text) : OpensCapital (s ++ t) := by
  obtain ⟨c, r, rfl, capital⟩ := opens
  exact ⟨c, r ++ t, rfl, capital⟩

theorem OpensCapital.key {s : Text} (opens : OpensCapital s) (chars : HasKeyChars s) : IsKey s := by
  obtain ⟨c, r, rfl, capital⟩ := opens
  exact ⟨c, r, rfl, Bool.or_eq_true_iff.2 (.inl capital), (List.forall_mem_cons.1 chars).2⟩

theorem OpensCapital.cut {key : Text} (opens : OpensCapital key) {n : Int} (room : 1 ≤ n) :
    OpensCapital (dropUnderscores (upTo n key)) := by
  obtain ⟨c, r, rfl, capital⟩ := opens
  have taken : upTo n (c :: r) = c :: r.take (n.toNat - 1) := by
    unfold upTo
    rw [if_pos (by omega), show n.toNat = n.toNat - 1 + 1 by omega, List.take_succ_cons, Nat.add_sub_cancel]
  -- A capital is no underscore, so that something is left.
  have left : dropUnderscores (upTo n (c :: r)) ≠ [] := by
    intro none
    have marks := List.rdropWhile_eq_nil_iff.1 none c (taken ▸ List.mem_cons_self)
    rw [beq_iff_eq.1 marks] at capital
    exact absurd capital (by decide)
  obtain ⟨d, kept, cut⟩ := List.exists_cons_of_ne_nil left
  have first : d = c := (List.cons_prefix_cons.1 (cut ▸ cut_begins n (c :: r))).1
  exact ⟨d, kept, cut, first ▸ capital⟩

-- The first run of key characters comes first.
theorem join_runs_begins (raw : Text) {c : Char} (begins : (joinRuns raw).head? = some c) : isKeyChar c = true := by
  have runs : ∀ w ∈ (Text.splitWhere (fun c => !isKeyChar c) raw.upper).filter fun w => !w.isEmpty,
      w ≠ [] ∧ ∀ d ∈ w, isKeyChar d = true := fun w run => runs_filled run
  unfold joinRuns at begins
  generalize (Text.splitWhere (fun c => !isKeyChar c) raw.upper).filter (fun w => !w.isEmpty) = words at begins runs
  cases words with
  | nil => cases begins
  | cons w rest =>
    obtain ⟨filled, chars⟩ := runs w List.mem_cons_self
    obtain ⟨d, w, rfl⟩ := List.exists_cons_of_ne_nil filled
    have first : (Text.join "_" ((d :: w) :: rest)).head? = some d := by cases rest <;> rfl
    rw [← Option.some.inj (first.symm.trans begins)]
    exact chars d List.mem_cons_self

theorem name_empty_begins (raw : Text) :
    ∃ c r, nameEmpty (joinRuns raw) = c :: r ∧ isKeyChar c = true := by
  unfold nameEmpty
  split
  · exact ⟨'U', "NNAMED_SECRET".toList, rfl, by decide⟩
  · rename_i filled
    obtain ⟨c, r, whole⟩ := List.exists_cons_of_ne_nil (show joinRuns raw ≠ [] by simpa using filled)
    exact ⟨c, r, whole, join_runs_begins raw (by rw [whole]; rfl)⟩

theorem mark_digit_opens {key : Text} (begins : ∃ c r, key = c :: r ∧ isKeyChar c = true) : OpensCapital (markDigit key) := by
  obtain ⟨c, r, rfl, named⟩ := begins
  unfold markDigit
  split
  · exact ⟨'V', _, rfl, by decide⟩
  · rename_i letter
    rcases Bool.or_eq_true_iff.1 named with capital | digit
    · exact ⟨c, r, rfl, capital⟩
    · exact absurd (Text.digit_of_ascii digit) letter

theorem mark_reserved_opens {key : Text} (opens : OpensCapital key) : OpensCapital (markReserved key) := by
  unfold markReserved
  split
  · exact ⟨'A', _, rfl, by decide⟩
  · exact opens

theorem guard_start_opens (raw : Text) : OpensCapital (guardStart {} (joinRuns raw)) :=
  mark_reserved_opens (mark_digit_opens (name_empty_begins raw))

theorem key_opens (raw : Text) : OpensCapital (key {} raw) := by
  apply key_holds
  · exact ⟨'U', _, rfl, by decide⟩
  · exact (guard_start_opens raw).cut (by decide)

end Beginnings

section Lengths

theorem cut_length {n : Int} (room : 0 ≤ n) (key : Text) : (dropUnderscores (upTo n key)).length ≤ n := by
  have kept : (dropUnderscores (upTo n key)).length ≤ (upTo n key).length := (List.rdropWhile_prefix _ _).length_le
  have taken : (upTo n key).length ≤ n.toNat := by
    unfold upTo
    rw [if_pos room]
    exact List.length_take_le _ _
  omega

theorem key_length (raw : Text) : (key {} raw).length ≤ 255 := by
  have cut := cut_length (show (0 : Int) ≤ 255 by decide) (guardStart {} (joinRuns raw))
  exact key_holds (P := fun key => key.length ≤ 255) (by decide) (Int.ofNat_le.1 cut)

-- The base of a part gives way to the ending.
theorem child_key_length (base : Text) {ending : Text} (short : ending.length ≤ 251) :
    (childKey {} base ending).length ≤ 255 := by
  have cut := cut_length (show (0 : Int) ≤ 255 - ending.length - 1 by omega) base
  unfold childKey
  rw [List.length_append, List.length_cons]
  dsimp only
  omega

end Lengths

section Keys

theorem key_is_key (raw : Text) : IsKey (key {} raw) := (key_opens raw).key (key_chars raw)

theorem child_key_is_key (raw : Text) {ending : Text} (part : HasKeyChars ending) (short : ending.length ≤ 251) :
    IsKey (childKey {} (key {} raw) ending) := by
  have base := (key_opens raw).cut (show (1 : Int) ≤ 255 - ending.length - 1 by omega)
  exact (base.append _).key (child_key_chars (key_chars raw) part)

end Keys

end KeyPolicy

namespace Credential

open KeyPolicy

theorem planned_keys (options : PlanOptions) (hit : CredentialHit) :
    ∀ v ∈ (planned {} options hit).specs, IsKey v.key ∧ v.key.length ≤ 255 := by
  intro v member
  obtain ⟨raw, same | ⟨ending, child, same⟩⟩ := planned_keyed member
  · exact same ▸ ⟨key_is_key raw, key_length raw⟩
  · have short := classifier_endings_short hit ending child
    exact same ▸ ⟨child_key_is_key raw (classifier_endings_chars hit ending child) short, child_key_length _ short⟩

/-- A plan is valid under the rules it is made by, and its keys are keys to the last character. -/
theorem resolve_validates (options : PlanOptions) (hits : List CredentialHit) :
    (validate {} (resolve {} options hits)).valid = true ∧ (validate {} (resolve {} options hits)).errors = [] ∧
      ((resolve {} options hits).map (·.key)).Nodup ∧
      ∀ v ∈ resolve {} options hits, IsKey v.key ∧ v.key.length ≤ 255 := by
  have apart : ((resolve {} options hits).map (·.key)).Nodup :=
    (spec_keys_perm _).nodup_iff.2 (Keyed.nodup_distinct _)
  have sound : ∀ v ∈ resolve {} options hits, IsKey v.key ∧ v.key.length ≤ 255 := by
    intro v member
    obtain ⟨hit, -, own⟩ := resolve_planned member
    exact planned_keys options hit v own
  have silent : (validate {} (resolve {} options hits)).errors = [] := by
    refine (validate_eq_nil_iff {} _).2 ⟨apart, fun v member => ?_⟩
    obtain ⟨form, short⟩ := sound v member
    exact ⟨form.form, Int.ofNat_le.2 short⟩
  exact ⟨List.isEmpty_iff.2 silent, silent, apart, sound⟩

end Credential
end PipelineMigration
