import Mathlib.Data.List.Induction
import Mathlib.Data.List.Nodup
import PipelineMigration.Keyed
set_option autoImplicit false

/- What is kept under each key: of pairs the first, of groups all the values in their order. -/
namespace PipelineMigration.Keyed

variable {κ α : Type} [BEq κ] [LawfulBEq κ]

theorem distinct_append_one (members : List κ) (m : κ) : distinct (members ++ [m]) =
    if m ∈ members then distinct members else distinct members ++ [m] := by
  have listed : m ∈ distinct members ↔ m ∈ members := mem_distinct
  have seen : (distinct members).any (· == m) = true ↔ m ∈ members := by
    rw [← listed]
    simp
  have step : distinct (members ++ [m]) =
      if (distinct members).any (· == m) then distinct members else distinct members ++ [m] := by
    simp [distinct]
  rw [step]
  exact if_congr seen rfl rfl

theorem distinct_of_nodup {members : List κ} (apart : members.Nodup) : distinct members = members := by
  induction members using List.reverseRecOn with
  | nil => rfl
  | append_singleton rest m ih =>
    obtain ⟨before, -, new⟩ := List.nodup_append.1 apart
    have absent : m ∉ rest := fun present => new m present m (List.mem_singleton_self m) rfl
    rw [distinct_append_one, if_neg absent, ih before]

-- What is put is there, and everything else was there before.
theorem mem_put {key : κ} {value : α} {entries : List (κ × α)} {entry : κ × α}
    (member : entry ∈ put key value entries) : entry = (key, value) ∨ entry ∈ entries := by
  induction entries with
  | nil => exact .inl (List.mem_singleton.1 member)
  | cons e rest ih =>
    unfold put at member
    split at member
    · rename_i same
      rcases List.mem_cons.1 member with own | later
      · rw [own, eq_of_beq same]
        exact .inl rfl
      · exact .inr (List.mem_cons_of_mem _ later)
    · rcases List.mem_cons.1 member with rfl | later
      · exact .inr List.mem_cons_self
      · exact (ih later).imp_right (List.mem_cons_of_mem _)

theorem put_new {key : κ} {value : α} {entries : List (κ × α)} (new : key ∉ entries.map (·.1)) :
    put key value entries = entries ++ [(key, value)] := by
  induction entries with
  | nil => rfl
  | cons e rest ih =>
    obtain ⟨other, later⟩ := not_or.1 (List.mem_cons.not.1 new)
    rw [put, if_neg (by simpa using Ne.symm other), ih later]
    rfl

theorem get?_drop {key k : κ} {entries : List (κ × α)} :
    get? k (drop key entries) = if k == key then none else get? k entries := by
  induction entries with
  | nil => simp [get?, drop]
  | cons e rest ih =>
    unfold get? drop at *
    by_cases same : e.1 = key <;> by_cases found : e.1 = k <;> simp_all

omit [LawfulBEq κ] in
theorem drop_absent {key : κ} {entries : List (κ × α)} (absent : ¬ has key entries = true) : drop key entries = entries := by
  refine List.filter_eq_self.2 fun e member => ?_
  rw [Bool.not_eq_true', ← Bool.not_eq_true]
  exact fun same => absent (List.any_eq_true.2 ⟨e, member, same⟩)

omit [LawfulBEq κ] in
theorem get?_map {β : Type} (f : α → β) (key : κ) (entries : List (κ × α)) :
    get? key (entries.map fun e => (e.1, f e.2)) = (get? key entries).map f := by
  unfold get?
  rw [List.find?_map, Option.map_map, Option.map_map]
  rfl

section Firsts

variable {key k : κ} {value : α} {entries pairs : List (κ × α)}

-- The keys come in the order in which they first came.
theorem keys_firstOfPairs : (firstOfPairs pairs).map (·.1) = distinct (pairs.map (·.1)) := by
  suffices h : ∀ held : List (κ × α), (pairs.foldl (fun entries pair => offer pair.1 pair.2 entries) held).map (·.1) =
      (pairs.map (·.1)).foldl (fun seen m => if m ∈ seen then seen else seen ++ [m]) (held.map (·.1)) by
    rw [distinct_eq]
    exact h []
  induction pairs with
  | nil => exact fun _ => rfl
  | cons p rest ih =>
    intro held
    rw [List.foldl_cons, ih, keys_offer, List.map_cons, List.foldl_cons]

theorem find_offer : (offer key value entries).find? (·.1 == k) =
    (entries.find? (·.1 == k)).or (if key == k then some (key, value) else none) := by
  unfold offer
  split
  · rename_i present
    cases found : entries.find? (·.1 == k) with
    | some e => rfl
    | none =>
      have other : (key == k) = false := by
        refine beq_eq_false_iff_ne.2 fun same => ?_
        obtain ⟨e, member, own⟩ := List.any_eq_true.1 present
        exact List.find?_eq_none.1 found e member (same ▸ own)
      rw [other]
      rfl
  · rw [List.find?_append, List.find?_singleton]

-- The first pair of each key is the one that is kept.
theorem find_firstOfPairs : (firstOfPairs pairs).find? (·.1 == k) = pairs.find? (·.1 == k) := by
  suffices h : ∀ held : List (κ × α), (pairs.foldl (fun entries pair => offer pair.1 pair.2 entries) held).find?
      (·.1 == k) = (held.find? (·.1 == k)).or (pairs.find? (·.1 == k)) from h []
  induction pairs with
  | nil => exact fun held => (Option.or_none).symm
  | cons p rest ih =>
    intro held
    rw [List.foldl_cons, ih, find_offer, Option.or_assoc, List.find?_cons]
    cases p.1 == k <;> rfl

-- Where all pairs of a key have one value, it is found.
theorem get?_firstOfPairs (each : ∀ pair ∈ pairs, pair.1 = k → pair.2 = value) (listed : k ∈ pairs.map (·.1)) :
    get? k (firstOfPairs pairs) = some value := by
  obtain ⟨pair, member, named⟩ := List.mem_map.1 listed
  rw [get?, find_firstOfPairs]
  cases found : pairs.find? (·.1 == k) with
  | none => exact absurd named (by simpa using List.find?_eq_none.1 found pair member)
  | some first =>
    have own : first.1 = k := by simpa using List.find?_some found
    rw [Option.map_some, each first (List.mem_of_find?_eq_some found) own]

-- Of pairs that have keys of their own, those are kept whose keys are new.
theorem foldl_offer (apart : (pairs.map (·.1)).Nodup) (held : List (κ × α)) :
    pairs.foldl (fun entries pair => offer pair.1 pair.2 entries) held =
      held ++ pairs.filter fun pair => !has pair.1 held := by
  induction pairs generalizing held with
  | nil => exact (List.append_nil held).symm
  | cons p rest ih =>
    obtain ⟨once, apart⟩ := List.nodup_cons.1 apart
    rw [List.foldl_cons, ih apart, List.filter_cons]
    -- A pair whose key is held is passed over; one that is new is held from here on.
    by_cases known : has p.1 held = true
    · have kept : offer p.1 p.2 held = held := if_pos known
      simp [kept, known]
    · have new : offer p.1 p.2 held = held ++ [p] := if_neg known
      have same : rest.filter (fun pair => !has pair.1 (held ++ [p])) = rest.filter fun pair => !has pair.1 held := by
        refine List.filter_congr fun pair member => ?_
        have other : (p.1 == pair.1) = false := by
          refine beq_eq_false_iff_ne.2 fun same => once ?_
          exact List.mem_map.2 ⟨pair, member, same.symm⟩
        simp [has, other]
      simp [new, same, known]

theorem firsts_append (front : (entries.map (·.1)).Nodup) (back : (pairs.map (·.1)).Nodup) :
    firstOfPairs (entries ++ pairs) = entries ++ pairs.filter fun pair => !has pair.1 entries := by
  have first : firstOfPairs entries = entries := by
    refine (foldl_offer front []).trans ?_
    simp [has]
  have step : firstOfPairs (entries ++ pairs) =
      pairs.foldl (fun entries pair => offer pair.1 pair.2 entries) (firstOfPairs entries) := List.foldl_append
  rw [step, first, foldl_offer back]

end Firsts

section Own

variable (keyOf : α → κ) (values : List α)

omit [LawfulBEq κ] in
-- Values kept under their own keys are told apart from what is kept under them.
theorem firsts_keyed : ((firstOfPairs (values.map fun v => (keyOf v, v))).map (·.2)).map (fun v => (keyOf v, v)) =
    firstOfPairs (values.map fun v => (keyOf v, v)) := by
  rw [List.map_map]
  refine (List.map_congr_left fun entry member => ?_).trans (List.map_id _)
  obtain ⟨v, -, rfl⟩ := List.mem_map.1 (mem_of_mem_firstOfPairs member)
  rfl

theorem firsts_keys : ((firstOfPairs (values.map fun v => (keyOf v, v))).map (·.2)).map keyOf =
    distinct (values.map keyOf) := by
  have own (vs : List α) : vs.map keyOf = (vs.map fun v => (keyOf v, v)).map (·.1) := by
    rw [List.map_map]
    rfl
  rw [own, firsts_keyed, keys_firstOfPairs, ← own]

-- The value that is kept under a key is the first that has it.
theorem find_firsts (k : κ) : ((firstOfPairs (values.map fun v => (keyOf v, v))).map (·.2)).find? (keyOf · == k) =
    values.find? (keyOf · == k) := by
  have own (vs : List α) : (vs.find? (keyOf · == k)).map (fun v => (keyOf v, v)) =
      (vs.map fun v => (keyOf v, v)).find? (·.1 == k) := by
    rw [List.find?_map]
    rfl
  have apart : Function.Injective fun v => (keyOf v, v) := fun v w same => (Prod.mk.inj same).2
  refine Option.map_injective apart ?_
  rw [own, own, firsts_keyed, find_firstOfPairs]

-- A new value is kept when its key is new.
theorem firsts_append_one (v : α) : (firstOfPairs ((values ++ [v]).map fun v => (keyOf v, v))).map (·.2) =
    if keyOf v ∈ values.map keyOf then (firstOfPairs (values.map fun v => (keyOf v, v))).map (·.2)
    else (firstOfPairs (values.map fun v => (keyOf v, v))).map (·.2) ++ [v] := by
  have step : firstOfPairs ((values ++ [v]).map fun v => (keyOf v, v)) =
      offer (keyOf v) v (firstOfPairs (values.map fun v => (keyOf v, v))) := by
    simp [firstOfPairs]
  have known : has (keyOf v) (firstOfPairs (values.map fun v => (keyOf v, v))) = true ↔ keyOf v ∈ values.map keyOf := by
    rw [has_eq_true_iff, mem_keys_firstOfPairs, List.map_map]
    rfl
  rw [step, offer]
  by_cases present : keyOf v ∈ values.map keyOf
  · rw [if_pos present, if_pos (known.2 present)]
  · rw [if_neg present, if_neg (mt known.1 present), List.map_append, List.map_singleton]

theorem firsts_sublist : ((firstOfPairs (values.map fun v => (keyOf v, v))).map (·.2)).Sublist values := by
  induction values using List.reverseRecOn with
  | nil => exact .slnil
  | append_singleton rest v ih =>
    rw [firsts_append_one]
    split
    · exact ih.trans (List.sublist_append_left rest [v])
    · exact ih.append (.refl [v])

-- What is made of values is kept just when they are, if their keys stay.
theorem firsts_map {β : Type} {f : α → β} {keyAfter : β → κ} (kept : ∀ v, keyAfter (f v) = keyOf v) :
    (firstOfPairs ((values.map f).map fun w => (keyAfter w, w))).map (·.2) =
      ((firstOfPairs (values.map fun v => (keyOf v, v))).map (·.2)).map f := by
  induction values using List.reverseRecOn with
  | nil => rfl
  | append_singleton rest v ih =>
    have keys : (rest.map f).map keyAfter = rest.map keyOf := by
      rw [List.map_map]
      exact List.map_congr_left fun w _ => kept w
    rw [List.map_append, List.map_singleton, firsts_append_one, firsts_append_one, ih, keys, kept]
    split
    · rfl
    · rw [List.map_append, List.map_singleton]

end Own

-- Where keys are told apart, the value of a key is found.
theorem find_keyed_iff {keyOf : α → κ} {values : List α} (apart : (values.map keyOf).Nodup) {k : κ} {v : α} :
    values.find? (keyOf · == k) = some v ↔ v ∈ values ∧ keyOf v = k := by
  constructor
  · intro found
    exact ⟨List.mem_of_find?_eq_some found, by simpa using List.find?_some found⟩
  · rintro ⟨member, rfl⟩
    cases found : values.find? (keyOf · == keyOf v) with
    | none => exact absurd (beq_self_eq_true (keyOf v)) (List.find?_eq_none.1 found v member)
    | some other =>
      have own : keyOf other = keyOf v := by simpa using List.find?_some found
      rw [List.inj_on_of_nodup_map apart (List.mem_of_find?_eq_some found) member own]

theorem find_perm {keyOf : α → κ} {values others : List α} (perm : values.Perm others) (apart : (values.map keyOf).Nodup)
    (k : κ) : values.find? (keyOf · == k) = others.find? (keyOf · == k) := by
  refine Option.ext fun v => ?_
  rw [find_keyed_iff apart, find_keyed_iff ((perm.map _).nodup_iff.1 apart), perm.mem_iff]

theorem get?_perm {entries others : List (κ × α)} (perm : entries.Perm others) (apart : (entries.map (·.1)).Nodup)
    (key : κ) : get? key entries = get? key others := by
  rw [get?, get?, find_perm perm apart]

section Sorted

variable (keyOf : α → κ) (values : List α) (le : α → α → Bool)

/-- The first values of all keys, in an order of their own. -/
def sortedFirsts : List α := ((firstOfPairs (values.map fun v => (keyOf v, v))).map (·.2)).mergeSort le

theorem sorted_firsts_keys : ((sortedFirsts keyOf values le).map keyOf).Perm (distinct (values.map keyOf)) :=
  ((List.mergeSort_perm _ _).map _).trans (.of_eq (firsts_keys keyOf values))

theorem sorted_firsts_nodup : ((sortedFirsts keyOf values le).map keyOf).Nodup :=
  (sorted_firsts_keys keyOf values le).nodup_iff.2 (nodup_distinct _)

-- In any order, the value of a key is the first that has it.
theorem find_sorted_firsts (k : κ) : (sortedFirsts keyOf values le).find? (keyOf · == k) = values.find? (keyOf · == k) := by
  have perm : (sortedFirsts keyOf values le).Perm ((firstOfPairs (values.map fun v => (keyOf v, v))).map (·.2)) :=
    List.mergeSort_perm _ _
  exact (find_perm perm (sorted_firsts_nodup keyOf values le) k).trans (find_firsts keyOf values k)

end Sorted

section Groups

theorem gather_new {key : κ} {value : α} {lists : List (κ × List α)} (new : key ∉ lists.map (·.1)) :
    gather key value lists = lists ++ [(key, [value])] := by
  induction lists with
  | nil => rfl
  | cons e rest ih =>
    obtain ⟨other, later⟩ := not_or.1 (List.mem_cons.not.1 new)
    rw [gather, if_neg (by simpa using Ne.symm other), ih later]
    rfl

theorem gather_known {key : κ} {value : α} {keys : List κ} (apart : keys.Nodup) (known : key ∈ keys) (f : κ → List α) :
    gather key value (keys.map fun k => (k, f k)) = keys.map fun k => (k, if key == k then f k ++ [value] else f k) := by
  induction keys with
  | nil => cases known
  | cons k rest ih =>
    obtain ⟨once, later⟩ := List.nodup_cons.1 apart
    rw [List.map_cons, gather, List.map_cons]
    by_cases same : k = key
    · subst same
      rw [if_pos (beq_self_eq_true k), if_pos (beq_self_eq_true k)]
      refine congrArg (_ :: ·) (List.map_congr_left fun j member => ?_)
      have other : (k == j) = false := beq_eq_false_iff_ne.2 fun same => once (same ▸ member)
      rw [other]
      rfl
    · have other : (key == k) = false := beq_eq_false_iff_ne.2 (Ne.symm same)
      rw [if_neg (by simpa using same), other, ih later ((List.mem_cons.1 known).resolve_left (Ne.symm same))]
      rfl

-- Each group holds the values of its key, in their order.
theorem groups_eq (keyOf : α → κ) (values : List α) : groups keyOf values =
    (distinct (values.map keyOf)).map fun k => (k, values.filter fun v => keyOf v == k) := by
  induction values using List.reverseRecOn with
  | nil => rfl
  | append_singleton rest v ih =>
    have step : groups keyOf (rest ++ [v]) = gather (keyOf v) v (groups keyOf rest) := by simp [groups]
    have group (k : κ) : (rest ++ [v]).filter (fun v => keyOf v == k) =
        if keyOf v == k then rest.filter (fun v => keyOf v == k) ++ [v] else rest.filter fun v => keyOf v == k := by
      rw [List.filter_append, List.filter_cons, List.filter_nil]
      cases keyOf v == k <;> simp
    have keys := distinct_append_one (rest.map keyOf) (keyOf v)
    rw [step, ih, List.map_append, List.map_singleton, keys]
    simp only [group]
    by_cases known : keyOf v ∈ rest.map keyOf
    · rw [if_pos known, gather_known (nodup_distinct _) (mem_distinct.2 known)]
    · have absent : keyOf v ∉ distinct (rest.map keyOf) := fun present => known (mem_distinct.1 present)
      have none : rest.filter (fun w => keyOf w == keyOf v) = [] :=
        List.filter_eq_nil_iff.2 fun w member same => known (beq_iff_eq.1 same ▸ List.mem_map_of_mem member)
      rw [if_neg known, gather_new (by simpa using absent), List.map_append, List.map_singleton, if_pos (beq_self_eq_true _),
        none]
      refine congrArg (· ++ _) (List.map_congr_left fun k member => ?_)
      rw [if_neg]
      exact fun same => absent (beq_iff_eq.1 same ▸ member)

theorem keys_groups (keyOf : α → κ) (values : List α) : (groups keyOf values).map (·.1) = distinct (values.map keyOf) := by
  rw [groups_eq, List.map_map]
  exact List.map_id _

omit [LawfulBEq κ] in
theorem gather_all (key : κ) (value : α) (lists : List (κ × List α)) :
    ((gather key value lists).flatMap (·.2)).Perm (value :: lists.flatMap (·.2)) := by
  induction lists with
  | nil => simp [gather]
  | cons e rest ih =>
    by_cases same : e.1 == key
    · rw [gather, if_pos same]
      simp
    · rw [gather, if_neg same, List.flatMap_cons, List.flatMap_cons]
      exact (ih.append_left e.2).trans List.perm_middle

omit [LawfulBEq κ] in
-- No value is lost in groups, and none is put in two.
theorem groups_all (keyOf : α → κ) (values : List α) : ((groups keyOf values).flatMap (·.2)).Perm values := by
  induction values using List.reverseRecOn with
  | nil => exact .nil
  | append_singleton rest v ih =>
    have step : groups keyOf (rest ++ [v]) = gather (keyOf v) v (groups keyOf rest) := by simp [groups]
    rw [step]
    exact (gather_all _ _ _).trans ((ih.cons v).trans (List.perm_append_singleton v rest).symm)

end Groups

end PipelineMigration.Keyed
