set_option autoImplicit false

/- Pairs in the order in which their keys first came. -/
namespace PipelineMigration.Keyed

variable {κ α : Type} [BEq κ]

def get? (key : κ) (entries : List (κ × α)) : Option α :=
  (entries.find? (·.1 == key)).map (·.2)

def has (key : κ) (entries : List (κ × α)) : Bool := entries.any (·.1 == key)

/-- Adds a pair unless its key is there. -/
def offer (key : κ) (value : α) (entries : List (κ × α)) : List (κ × α) :=
  if has key entries then entries else entries ++ [(key, value)]

/-- Sets the value of a key; a new key goes to the end. -/
def put (key : κ) (value : α) : List (κ × α) → List (κ × α)
  | [] => [(key, value)]
  | (k, v) :: rest => if k == key then (k, value) :: rest else (k, v) :: put key value rest

def drop (key : κ) (entries : List (κ × α)) : List (κ × α) := entries.filter fun e => !(e.1 == key)

/-- Each key at its first place with its last value. -/
def ofPairs (pairs : List (κ × α)) : List (κ × α) :=
  pairs.foldl (fun entries (key, value) => put key value entries) []

/-- Each key at its first place with its first value. -/
def firstOfPairs (pairs : List (κ × α)) : List (κ × α) :=
  pairs.foldl (fun entries (key, value) => offer key value entries) []

/-- Appends a value to the list kept under a key. -/
def gather (key : κ) (value : α) : List (κ × List α) → List (κ × List α)
  | [] => [(key, [value])]
  | (k, vs) :: rest =>
    if k == key then (k, vs ++ [value]) :: rest else (k, vs) :: gather key value rest

/-- The values by key, keys in the order of their first value. -/
def groups (keyOf : α → κ) (values : List α) : List (κ × List α) :=
  values.foldl (fun entries value => gather (keyOf value) value entries) []

/-- The list without repetitions, each member at its first place. -/
def distinct (members : List κ) : List κ :=
  members.foldl (fun seen m => if seen.any (· == m) then seen else seen ++ [m]) []

section Laws

variable [LawfulBEq κ] {key other k : κ} {value : α} {entries pairs : List (κ × α)}

theorem has_eq_true_iff : has key entries = true ↔ key ∈ entries.map (·.1) := by
  simp [has]

theorem get?_isSome_iff : (get? key entries).isSome ↔ key ∈ entries.map (·.1) := by
  simp [get?, List.find?_isSome]

theorem mem_of_get? (found : get? key entries = some value) : (key, value) ∈ entries := by
  obtain ⟨entry, hit, rfl⟩ := Option.map_eq_some_iff.1 found
  have same : entry.1 = key := by simpa using List.find?_some hit
  exact same ▸ List.mem_of_find?_eq_some hit

theorem get?_put_self : get? key (put key value entries) = some value := by
  induction entries with
  | nil => simp [put, get?]
  | cons e rest ih =>
    obtain ⟨k, v⟩ := e
    by_cases h : k = key
    · simp [put, get?, h]
    · simpa [put, get?, h] using ih

theorem get?_put_of_ne (h : other ≠ key) :
    get? other (put key value entries) = get? other entries := by
  induction entries with
  | nil => simp [put, get?, Ne.symm h]
  | cons e rest ih =>
    obtain ⟨k, v⟩ := e
    by_cases hk : k = key
    · subst hk; simp [put, get?, Ne.symm h]
    · by_cases ho : k = other
      · subst ho; simp [put, get?, h]
      · simpa [put, get?, hk, ho] using ih

/-- A key stays where it is; a new one goes to the end. -/
theorem keys_put : (put key value entries).map (·.1) =
    if key ∈ entries.map (·.1) then entries.map (·.1) else entries.map (·.1) ++ [key] := by
  induction entries with
  | nil => simp [put]
  | cons e rest ih =>
    obtain ⟨k, v⟩ := e
    by_cases h : k = key
    · simp [put, h]
    · simp only [put, beq_iff_eq, h, if_false, List.map_cons, ih, List.mem_cons, Ne.symm h,
        false_or]
      split <;> simp

theorem keys_offer : (offer key value entries).map (·.1) =
    if key ∈ entries.map (·.1) then entries.map (·.1) else entries.map (·.1) ++ [key] := by
  by_cases h : key ∈ entries.map (·.1)
  · simp [offer, has_eq_true_iff, h]
  · simp [offer, has_eq_true_iff, h]

omit [LawfulBEq κ] in
theorem mem_offer {entry : κ × α} (member : entry ∈ offer key value entries) :
    entry ∈ entries ∨ entry = (key, value) := by
  unfold offer at member
  split at member
  · exact .inl member
  · simpa using member

omit [LawfulBEq κ] in
theorem mem_of_mem_firstOfPairs {entry : κ × α} (member : entry ∈ firstOfPairs pairs) :
    entry ∈ pairs := by
  suffices h : ∀ held : List (κ × α),
      entry ∈ pairs.foldl (fun entries (key, value) => offer key value entries) held →
        entry ∈ held ∨ entry ∈ pairs from (h [] member).resolve_left (by simp)
  clear member
  induction pairs with
  | nil => exact fun _ h => .inl h
  | cons p rest ih =>
    intro held later
    rcases ih _ later with early | late
    · rcases mem_offer early with held | rfl
      · exact .inl held
      · exact .inr List.mem_cons_self
    · exact .inr (List.mem_cons_of_mem _ late)

theorem mem_keys_firstOfPairs : k ∈ (firstOfPairs pairs).map (·.1) ↔ k ∈ pairs.map (·.1) := by
  suffices h : ∀ held : List (κ × α),
      k ∈ (pairs.foldl (fun entries (key, value) => offer key value entries) held).map (·.1) ↔
        k ∈ held.map (·.1) ∨ k ∈ pairs.map (·.1) from (h []).trans (by simp)
  induction pairs with
  | nil => simp
  | cons p rest ih =>
    intro held
    rw [List.foldl_cons, ih, keys_offer, List.map_cons, List.mem_cons]
    split <;> grind

theorem nodup_append_new {keys : List κ} (h : keys.Nodup) :
    (if key ∈ keys then keys else keys ++ [key]).Nodup := by
  split
  · exact h
  · rename_i new
    exact List.nodup_append.2 ⟨h, by simp, fun a ha b hb => by
      rintro rfl; exact new (by simpa [List.mem_singleton.1 hb] using ha)⟩

theorem nodup_keys_put (h : (entries.map (·.1)).Nodup) :
    ((put key value entries).map (·.1)).Nodup := by
  rw [keys_put]; exact nodup_append_new h

theorem nodup_keys_offer (h : (entries.map (·.1)).Nodup) :
    ((offer key value entries).map (·.1)).Nodup := by
  rw [keys_offer]; exact nodup_append_new h

omit [BEq κ] [LawfulBEq κ] in
theorem nodup_keys_foldl {step : List (κ × α) → κ × α → List (κ × α)}
    (keeps : ∀ es p, (es.map (·.1)).Nodup → ((step es p).map (·.1)).Nodup)
    (h : (entries.map (·.1)).Nodup) : ((pairs.foldl step entries).map (·.1)).Nodup := by
  induction pairs generalizing entries with
  | nil => exact h
  | cons p rest ih => exact ih (keeps entries p h)

theorem nodup_keys_ofPairs : ((ofPairs pairs).map (·.1)).Nodup :=
  nodup_keys_foldl (fun _ _ => nodup_keys_put) (by simp)

theorem nodup_keys_firstOfPairs : ((firstOfPairs pairs).map (·.1)).Nodup :=
  nodup_keys_foldl (fun _ _ => nodup_keys_offer) (by simp)

theorem distinct_eq (members : List κ) : distinct members =
    members.foldl (fun seen m => if m ∈ seen then seen else seen ++ [m]) [] := by
  simp [distinct]

theorem nodup_distinct (members : List κ) : (distinct members).Nodup := by
  suffices h : ∀ seen : List κ, seen.Nodup →
      (members.foldl (fun seen m => if m ∈ seen then seen else seen ++ [m]) seen).Nodup by
    rw [distinct_eq]; exact h [] (by simp)
  induction members with
  | nil => exact fun _ h => h
  | cons m rest ih => exact fun seen h => ih _ (nodup_append_new h)

theorem mem_distinct {members : List κ} {m : κ} : m ∈ distinct members ↔ m ∈ members := by
  suffices h : ∀ seen : List κ,
      m ∈ members.foldl (fun seen m => if m ∈ seen then seen else seen ++ [m]) seen ↔
        m ∈ seen ∨ m ∈ members by
    rw [distinct_eq, h]; simp
  induction members with
  | nil => simp
  | cons n rest ih =>
    intro seen
    rw [List.foldl_cons, ih]
    split <;> grind

omit [LawfulBEq κ] in
/-- What is put is there, and nothing else is new. -/
theorem mem_keys_put (present : k ∈ (put key value entries).map (·.1)) : k = key ∨ k ∈ entries.map (·.1) := by
  induction entries with
  | nil => exact .inl (by simpa [put] using present)
  | cons e rest ih =>
    unfold put at present
    split at present
    · exact .inr present
    · rcases List.mem_cons.1 present with same | later
      · exact .inr (List.mem_cons.2 (.inl same))
      · exact (ih later).imp_right (List.mem_cons_of_mem _)

end Laws

end PipelineMigration.Keyed
