import PipelineMigration.Credential.Plan
set_option autoImplicit false

/- The form of keys: whatever a credential is called, the keys of its variables hold capitals, digits and
   underscores only. -/
namespace PipelineMigration

theorem Text.split_where_kept {p : Char → Bool} {s w : Text} (piece : w ∈ splitWhere p s) : ∀ c ∈ w, p c = false := by
  induction s generalizing w with
  | nil =>
    rw [List.mem_singleton.1 piece]
    exact List.forall_mem_nil _
  | cons c r ih =>
    rw [splitWhere] at piece
    split at piece
    · rcases List.mem_cons.1 piece with rfl | later
      · exact List.forall_mem_nil _
      · exact ih later
    · rename_i kept
      have here : p c = false := by simpa using kept
      split at piece
      · rw [List.mem_singleton.1 piece]
        exact List.forall_mem_singleton.2 here
      · rename_i word words whole
        rw [whole] at ih
        rcases List.mem_cons.1 piece with rfl | later
        · exact List.forall_mem_cons.2 ⟨here, ih List.mem_cons_self⟩
        · exact ih (List.mem_cons_of_mem _ later)

theorem Text.join_holds {P : Char → Prop} {separator : Text} {parts : List Text} (between : ∀ c ∈ separator, P c)
    (each : ∀ w ∈ parts, ∀ c ∈ w, P c) : ∀ c ∈ join separator parts, P c := by
  induction parts with
  | nil => exact List.forall_mem_nil _
  | cons w rest ih =>
    obtain ⟨here, others⟩ := List.forall_mem_cons.1 each
    cases rest with
    | nil => simpa [join, List.intercalate] using here
    | cons v rest =>
      have step : join separator (w :: v :: rest) = w ++ (separator ++ join separator (v :: rest)) := by
        simp [join, List.intercalate]
      rw [step]
      exact List.forall_mem_append.2 ⟨here, List.forall_mem_append.2 ⟨between, ih others⟩⟩

namespace KeyPolicy

/-- A text of key characters and underscores. -/
def HasKeyChars (s : Text) : Prop := ∀ c ∈ s, (isKeyChar c || c == '_') = true

instance (s : Text) : Decidable (HasKeyChars s) := inferInstanceAs (Decidable (∀ c ∈ s, (isKeyChar c || c == '_') = true))

theorem HasKeyChars.append {a b : Text} (first : HasKeyChars a) (second : HasKeyChars b) : HasKeyChars (a ++ b) :=
  List.forall_mem_append.2 ⟨first, second⟩

-- What is left of a key when it is cut has the same characters.
theorem HasKeyChars.cut {key : Text} (held : HasKeyChars key) (n : Int) : HasKeyChars (dropUnderscores (upTo n key)) := by
  intro c member
  have taken : c ∈ upTo n key := List.mem_reverse.1 ((List.dropWhile_sublist _).subset (List.mem_reverse.1 member))
  unfold upTo at taken
  split at taken
  · exact held c (List.mem_of_mem_take taken)
  · exact held c (List.mem_of_mem_take taken)

-- Keys are joined of these.
theorem runs_filled {raw w : Text} (run : w ∈ (Text.splitWhere (fun c => !isKeyChar c) raw.upper).filter fun w => !w.isEmpty) :
    w ≠ [] ∧ ∀ c ∈ w, isKeyChar c = true := by
  obtain ⟨piece, filled⟩ := List.mem_filter.1 run
  exact ⟨by simpa using filled, fun c inside => by simpa using Text.split_where_kept piece c inside⟩

theorem join_runs_chars (raw : Text) : HasKeyChars (joinRuns raw) := by
  refine Text.join_holds (by decide) fun w run c inside => ?_
  simp [(runs_filled run).2 c inside]

-- The rules on beginnings name a key, leave it alone or put a word in front of it.
theorem guard_start_holds {P : Text → Prop} {key : Text} (fallback : P fallbackKey) (given : key ≠ [] → P key)
    (marked : ∀ word ∈ ["VAR".toList, "APP".toList], ∀ key, P key → P (word ++ '_' :: key)) : P (guardStart {} key) := by
  unfold guardStart
  dsimp only
  have named : P (if key.isEmpty then fallbackKey else key) := by
    split
    · exact fallback
    · rename_i filled
      exact given (by simpa using filled)
  generalize (if key.isEmpty then fallbackKey else key) = name at named
  have lettered : P (if name.head?.any Text.isDigit then "VAR_".toList ++ name else name) := by
    split
    · exact marked "VAR".toList (by simp) name named
    · exact named
  generalize (if name.head?.any Text.isDigit then "VAR_".toList ++ name else name) = name at lettered
  split
  · exact marked "APP".toList (by simp) name lettered
  · exact lettered

-- A key is what the cut leaves of its start, or the fallback.
theorem key_holds {P : Text → Prop} {raw : Text} (fallback : P fallbackKey)
    (cut : P (dropUnderscores (upTo 255 (guardStart {} (joinRuns raw))))) : P (key {} raw) := by
  unfold key
  dsimp only
  split
  · exact fallback
  · exact cut

theorem key_chars (raw : Text) : HasKeyChars (key {} raw) := by
  have start : HasKeyChars (guardStart {} (joinRuns raw)) := by
    apply guard_start_holds
    · decide
    · exact fun _ => join_runs_chars raw
    · intro word listed key held
      have plain : ∀ word ∈ ["VAR".toList, "APP".toList], HasKeyChars word := by decide
      exact (plain word listed).append (HasKeyChars.append (a := ['_']) (by decide) held)
  exact key_holds (by decide) (start.cut 255)

theorem child_key_chars {base ending : Text} (own : HasKeyChars base) (part : HasKeyChars ending) :
    HasKeyChars (childKey {} base ending) :=
  (own.cut _).append (HasKeyChars.append (a := ['_']) (by decide) part)

end KeyPolicy

namespace Credential

open KeyPolicy

-- A credential is classified by words or else by the kind of its reference.
theorem classifier_held {P : Classifier → Prop} (words : ∀ c ∈ Classifier.byWords, P c)
    (kinds : ∀ kind ∈ ReferenceKind.all, P (Classifier.ofKind kind)) (hit : CredentialHit) : P (Classifier.of hit) := by
  unfold Classifier.of
  dsimp only
  cases found : Classifier.byWords.find? _ with
  | none => exact kinds hit.kind (by cases hit.kind <;> decide)
  | some c => exact words c (List.mem_of_find?_eq_some found)

theorem classifier_endings_chars (hit : CredentialHit) :
    ∀ ending ∈ (Classifier.of hit).children, HasKeyChars ending.1 :=
  classifier_held (P := fun c => ∀ ending ∈ c.children, HasKeyChars ending.1) (by decide) (by decide) hit

variable {options : PlanOptions} {hit : CredentialHit} {hits : List CredentialHit} {v : VariableSpec}

-- The key of a planned variable is that of its credential, or that of a part.
theorem planned_keyed (member : v ∈ (planned {} options hit).specs) : ∃ raw, v.key = key {} raw ∨
    ∃ ending ∈ (Classifier.of hit).children, v.key = childKey {} (key {} raw) ending.1 := by
  unfold PlannedCredential.specs planned at member
  dsimp only at member
  split at member
  · rw [List.mem_singleton.1 member]
    exact ⟨_, .inl rfl⟩
  · obtain ⟨ending, child, rfl⟩ := List.mem_map.1 member
    exact ⟨_, .inr ⟨ending, child, rfl⟩⟩

-- Every variable of a plan is planned for a credential.
theorem resolve_planned (member : v ∈ resolve {} options hits) : ∃ hit ∈ hits, v ∈ (planned {} options hit).specs := by
  unfold resolve specs at member
  rw [List.mem_mergeSort] at member
  obtain ⟨⟨key, spec⟩, kept, rfl⟩ := List.mem_map.1 member
  obtain ⟨other, among, pair⟩ := List.mem_map.1 (Keyed.mem_of_mem_firstOfPairs kept)
  obtain ⟨-, rfl⟩ := Prod.mk.inj pair
  obtain ⟨p, planned_, own⟩ := List.mem_flatMap.1 among
  obtain ⟨hit, asked, rfl⟩ := List.mem_map.1 planned_
  exact ⟨hit, asked, own⟩

-- Every variable that is planned has a key of key characters.
theorem resolve_key_chars (options : PlanOptions) (hits : List CredentialHit) :
    ∀ v ∈ resolve {} options hits, HasKeyChars v.key := by
  intro v member
  obtain ⟨hit, -, own⟩ := resolve_planned member
  obtain ⟨raw, same | ⟨ending, child, same⟩⟩ := planned_keyed own
  · exact same ▸ key_chars raw
  · exact same ▸ child_key_chars (key_chars raw) (classifier_endings_chars hit ending child)

end Credential
end PipelineMigration
