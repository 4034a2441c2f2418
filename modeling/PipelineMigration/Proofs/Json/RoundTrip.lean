import PipelineMigration.Proofs.Json.Spelling
import PipelineMigration.Proofs.Keyed
import PipelineMigration.Proofs.Outcome
set_option autoImplicit false

/- JSON values written over several lines are read back, their members in the order of their names. Every value that is
   read can be written so that it is read again. -/
namespace PipelineMigration.Json

section Gap

/-- The break in front of a line and its indent. -/
def lineGap (k : Nat) : Text := '\n' :: List.replicate (2 * k) ' '

theorem skip_gap (k : Nat) {c : Char} (plain : isSpace c = false) (r : Text) :
    skipSpace (lineGap k ++ c :: r) = c :: r := by
  have blank : ∀ d ∈ lineGap k, isSpace d = true := by
    simp [lineGap, isSpace]
  have ends : ∀ d ∈ (c :: r).head?, isSpace d = false := by simp [plain]
  exact (Text.run_taken blank ends).2

theorem gap_closes (k : Nat) (t : Text) : Closes (lineGap k ++ t) := by simp [Closes, lineGap]

theorem comma_closes (t : Text) : Closes (',' :: t) := by simp [Closes]

theorem join_one (separator x : Text) : Text.join separator [x] = x := by
  simp [Text.join, List.intercalate]

theorem join_more (gap x y : Text) (more : List Text) (tail : Text) : Text.join (',' :: gap) (x :: y :: more) ++ tail =
    x ++ ',' :: (gap ++ (Text.join (',' :: gap) (y :: more) ++ tail)) := by
  simp [Text.join, List.intercalate]

theorem block_filled {lines : List Text} (some : lines ≠ []) (opening closing : Char) (depth : Nat) (rest : Text) :
    block [opening] [closing] depth lines ++ rest = opening :: (lineGap (depth + 1) ++
      (Text.join (',' :: lineGap (depth + 1)) lines ++ (lineGap depth ++ closing :: rest))) := by
  simp [block, some, lineGap]

end Gap

section Items

variable {fuel k : Nat} {s r t tail rest : Text} {v : Json} {vs items : List Json} {lines : List Text}

theorem read_items_last (read : value fuel s = .ok (v, r)) (ends : skipSpace r = ']' :: rest) :
    readItems (fuel + 1) s = .ok ([v], rest) := by
  rw [readItems, read]
  simp only [bind, Except.bind, ends]
  rfl

theorem read_items_more (read : value fuel s = .ok (v, r)) (comma : skipSpace r = ',' :: t)
    (more : readItems fuel (skipSpace t) = .ok (vs, rest)) : readItems (fuel + 1) s = .ok (v :: vs, rest) := by
  rw [readItems, read]
  simp only [bind, Except.bind, comma, more]
  rfl

theorem items_begin (each : List.Forall₂ Spells lines items) (some : lines ≠ []) (gap tail : Text) :
    ∃ c r, Text.join (',' :: gap) lines ++ tail = c :: r ∧ isSpace c = false ∧ c ≠ ']' := by
  cases each with
  | nil => exact absurd rfl some
  | @cons line v lines items spelt each =>
    obtain ⟨c, r, rfl, plain⟩ := spelt.begins
    cases lines with
    | nil =>
      rw [join_one]
      exact ⟨c, _, rfl, plain⟩
    | cons x more =>
      rw [join_more]
      exact ⟨c, _, rfl, plain⟩

-- Items on lines of their own up to the closing bracket.
theorem read_items (each : List.Forall₂ Spells lines items) (some : lines ≠ []) (closed : Closes tail)
    (ends : skipSpace tail = ']' :: rest) (enough : (Text.join (',' :: lineGap k) lines ++ tail).length + 1 < fuel) :
    readItems fuel (Text.join (',' :: lineGap k) lines ++ tail) = .ok (items, rest) := by
  induction each generalizing fuel with
  | nil => exact absurd rfl some
  | @cons line v lines items spelt each ih =>
    obtain ⟨fuel, rfl⟩ := Nat.exists_eq_add_one.2 (Nat.zero_lt_of_lt enough)
    cases lines with
    | nil =>
      cases each
      rw [join_one] at enough ⊢
      exact read_items_last (spelt.read closed (Nat.lt_of_succ_lt_succ enough)) ends
    | cons x more =>
      rw [join_more] at enough ⊢
      obtain ⟨c, r, front, plain, -⟩ := items_begin each (List.cons_ne_nil _ _) (lineGap k) tail
      have gap := skip_gap k plain r
      rw [← front] at gap
      apply read_items_more (spelt.read (comma_closes _) (Nat.lt_of_succ_lt_succ enough)) rfl
      rw [gap]
      apply ih (List.cons_ne_nil _ _)
      simp only [List.length_append, List.length_cons] at enough ⊢
      omega

-- Values on lines of their own spell an array.
theorem spells_array (each : List.Forall₂ Spells lines items) (depth : Nat) :
    Spells (block "[" "]" depth lines) (array items) := by
  refine ⟨?_, fun {rest} closed {fuel} enough => ?_⟩
  · unfold block
    split <;> exact ⟨'[', _, rfl, rfl, by decide⟩
  obtain ⟨fuel, rfl⟩ := Nat.exists_eq_add_one.2 (Nat.zero_lt_of_lt enough)
  by_cases none : lines = []
  · subst none
    cases each
    rfl
  · have shape : block "[" "]" depth lines ++ rest = _ := block_filled none '[' ']' depth rest
    rw [shape] at enough ⊢
    have inner : (Text.join (',' :: lineGap (depth + 1)) lines ++ (lineGap depth ++ ']' :: rest)).length + 1 < fuel := by
      simp only [lineGap, List.length_cons, List.length_append, List.length_replicate] at enough ⊢
      omega
    obtain ⟨c, r, front, plain, other⟩ := items_begin each none (lineGap (depth + 1)) (lineGap depth ++ ']' :: rest)
    have gap := skip_gap (depth + 1) plain r
    have read := read_items each none (gap_closes depth _) (skip_gap depth rfl rest) inner
    rw [front] at read ⊢
    rw [value]
    split
    · rename_i same
      rw [gap] at same
      exact absurd (List.cons.inj same).1 other
    · rw [gap, read]
      rfl

end Items

section Members

variable {fuel k : Nat} {name r t tail rest : Text} {v : Json} {held members : List (Text × Json)} {lines : List Text}

/-- A member is its name and the text of its value. -/
def Entry (line : Text) (m : Text × Json) : Prop := ∃ t, line = quoted m.1 ++ ':' :: ' ' :: t ∧ Spells t m.2

theorem read_member (fuel : Nat) (held : List (Text × Json)) (name : Text) (spelt : Spells t v) (closed : Closes r)
    (enough : (t ++ r).length < fuel) :
    readMembers (fuel + 1) held (quoted name ++ ':' :: ' ' :: (t ++ r)) = match skipSpace r with
      | '\x7d' :: rest => .ok (Keyed.put name v held, rest)
      | ',' :: rest => readMembers fuel (Keyed.put name v held) (skipSpace rest)
      | u => .error (.expectingComma, u) := by
  obtain ⟨c, s, rfl, plain, -⟩ := spelt.begins
  have stop : skipSpace (c :: s ++ r) = c :: s ++ r := List.dropWhile_cons_of_neg (by simp [plain])
  have gap : skipSpace (' ' :: (c :: s ++ r)) = c :: s ++ r := stop
  have colon (t : Text) : skipSpace (':' :: t) = ':' :: t := rfl
  rw [quoted_append, readMembers, quoted_read]
  simp only [bind, Except.bind, colon, gap, spelt.read closed enough]
  rfl

theorem members_begin (each : List.Forall₂ Entry lines members) (some : lines ≠ []) (gap tail : Text) :
    ∃ r, Text.join (',' :: gap) lines ++ tail = '"' :: r := by
  cases each with
  | nil => exact absurd rfl some
  | @cons line m lines members entry each =>
    obtain ⟨t, rfl, spelt⟩ := entry
    cases lines with
    | nil =>
      rw [join_one, List.append_assoc, quoted_append]
      exact ⟨_, rfl⟩
    | cons x more =>
      rw [join_more, List.append_assoc, quoted_append]
      exact ⟨_, rfl⟩

-- Members on lines of their own up to the closing brace, their names new and apart.
theorem read_members (each : List.Forall₂ Entry lines members) (some : lines ≠ []) (closed : Closes tail)
    (ends : skipSpace tail = '\x7d' :: rest) (enough : (Text.join (',' :: lineGap k) lines ++ tail).length < fuel)
    (apart : ((held ++ members).map (·.1)).Nodup) :
    readMembers fuel held (Text.join (',' :: lineGap k) lines ++ tail) = .ok (held ++ members, rest) := by
  induction each generalizing fuel held with
  | nil => exact absurd rfl some
  | @cons line m lines members entry each ih =>
    obtain ⟨fuel, rfl⟩ := Nat.exists_eq_add_one.2 (Nat.zero_lt_of_lt enough)
    obtain ⟨t, rfl, spelt⟩ := entry
    have new : Keyed.put m.1 m.2 held = held ++ [m] := by
      rw [List.map_append, List.map_cons] at apart
      exact Keyed.put_new fun present => (List.nodup_append.1 apart).2.2 _ present _ List.mem_cons_self rfl
    cases lines with
    | nil =>
      cases each
      rw [join_one, List.append_assoc] at enough ⊢
      simp only [List.length_append, List.length_cons, List.cons_append] at enough
      have read := read_member fuel held m.1 spelt closed (by rw [List.length_append]; omega)
      rw [ends] at read
      refine read.trans ?_
      rw [new]
      rfl
    | cons x more =>
      rw [join_more, List.append_assoc] at enough ⊢
      obtain ⟨r, front⟩ := members_begin each (List.cons_ne_nil _ _) (lineGap k) tail
      have gap : skipSpace (lineGap k ++ '"' :: r) = '"' :: r := skip_gap k rfl r
      rw [← front] at gap
      simp only [List.length_append, List.length_cons, List.cons_append] at enough
      have comma := comma_closes (lineGap k ++ (Text.join (',' :: lineGap k) (x :: more) ++ tail))
      have read := read_member fuel held m.1 spelt comma (by
        simp only [List.length_append, List.length_cons]
        omega)
      have later : readMembers fuel (held ++ [m]) (Text.join (',' :: lineGap k) (x :: more) ++ tail) =
          .ok (held ++ [m] ++ members, rest) :=
        ih (List.cons_ne_nil _ _) (by rw [List.length_append]; omega) (by rwa [List.append_assoc])
      rw [← gap, List.append_assoc, ← new] at later
      exact read.trans later

-- Members on lines of their own spell an object.
theorem spells_object (each : List.Forall₂ Entry lines members) (apart : (members.map (·.1)).Nodup) (depth : Nat) :
    Spells (block "\x7b" "\x7d" depth lines) (object members) := by
  refine ⟨?_, fun {rest} closed {fuel} enough => ?_⟩
  · unfold block
    split <;> exact ⟨'\x7b', _, rfl, rfl, by decide⟩
  obtain ⟨fuel, rfl⟩ := Nat.exists_eq_add_one.2 (Nat.zero_lt_of_lt enough)
  by_cases none : lines = []
  · subst none
    cases each
    rfl
  · have shape : block "\x7b" "\x7d" depth lines ++ rest = _ := block_filled none '\x7b' '\x7d' depth rest
    rw [shape] at enough ⊢
    have inner : (Text.join (',' :: lineGap (depth + 1)) lines ++ (lineGap depth ++ '\x7d' :: rest)).length < fuel := by
      simp only [lineGap, List.length_cons, List.length_append, List.length_replicate] at enough ⊢
      omega
    obtain ⟨r, front⟩ := members_begin each none (lineGap (depth + 1)) (lineGap depth ++ '\x7d' :: rest)
    have gap : skipSpace (lineGap (depth + 1) ++ '"' :: r) = '"' :: r := skip_gap _ rfl r
    have read : readMembers fuel [] _ = .ok (members, rest) :=
      read_members each none (gap_closes depth _) (skip_gap depth rfl rest) inner apart
    rw [front] at read ⊢
    rw [value]
    split
    · rename_i same
      rw [gap] at same
      cases same
    · rw [gap, read]
      rfl

end Members

section Arranged

mutual

/-- The value with the members of every object in the order of their names. -/
def arranged : Json → Json
  | array items => array (arrangedItems items)
  | object members => object ((arrangedMembers members).mergeSort fun a b => Text.notAfter a.1 b.1)
  | v => v

def arrangedItems : List Json → List Json
  | [] => []
  | v :: rest => v.arranged :: arrangedItems rest

def arrangedMembers : List (Text × Json) → List (Text × Json)
  | [] => []
  | (name, v) :: rest => (name, v.arranged) :: arrangedMembers rest

end

/-- A value whose numbers are short enough to be read and whose names are apart in every object. -/
inductive Proper : Json → Prop where
  | null : Proper null
  | bool (b : Bool) : Proper (bool b)
  | int {n : Int} (fits : Number.Fits n) : Proper (int n)
  | float (x : Float) : Proper (float x)
  | string (s : Text) : Proper (string s)
  | array {items : List Json} (each : ∀ v ∈ items, Proper v) : Proper (array items)
  | object {members : List (Text × Json)} (apart : (members.map (·.1)).Nodup) (each : ∀ m ∈ members, Proper m.2) :
    Proper (object members)

variable {v : Json} (items : List Json) (members : List (Text × Json)) (depth : Nat)

theorem arranged_items : arrangedItems items = items.map arranged := by
  induction items with
  | nil => rfl
  | cons v rest ih => rw [arrangedItems, ih, List.map_cons]

theorem arranged_members : arrangedMembers members = members.map fun m => (m.1, m.2.arranged) := by
  induction members with
  | nil => rfl
  | cons m rest ih => rw [arrangedMembers, ih, List.map_cons]

theorem indented_items : indentedItems depth items = items.map (indented depth) := by
  induction items with
  | nil => rfl
  | cons v rest ih => rw [indentedItems, ih, List.map_cons]

theorem indented_members : indentedMembers depth members =
    members.map fun m => (m.1, quoted m.1 ++ ':' :: ' ' :: m.2.indented depth) := by
  induction members with
  | nil => rfl
  | cons m rest ih =>
    rw [indentedMembers, ih, List.map_cons]
    simp

theorem sorted_map {α β : Type} (f : Text × α → β) (entries : List (Text × α)) :
    (entries.map fun m => (m.1, f m)).mergeSort (fun a b => Text.notAfter a.1 b.1) =
      (entries.mergeSort fun a b => Text.notAfter a.1 b.1).map fun m => (m.1, f m) := by
  refine (List.map_mergeSort (f := fun m => (m.1, f m)) ?_).symm
  intros
  rfl

theorem put_proper (name : Text) {members : List (Text × Json)} (proper : (object members).Proper) (kept : v.Proper) :
    (object (Keyed.put name v members)).Proper := by
  cases proper with
  | object apart each =>
    refine .object (Keyed.nodup_keys_put apart) fun m member => ?_
    rcases Keyed.mem_put member with rfl | before
    · exact kept
    · exact each m before

theorem drop_proper (name : Text) {members : List (Text × Json)} (proper : (object members).Proper) :
    (object (Keyed.drop name members)).Proper := by
  cases proper with
  | object apart each =>
    refine .object (apart.sublist (List.filter_sublist.map _)) fun m member => each m (List.mem_filter.1 member).1

theorem sorted_again {α : Type} (entries : List (Text × α)) :
    (entries.mergeSort fun a b => Text.notAfter a.1 b.1).mergeSort (fun a b => Text.notAfter a.1 b.1) =
      entries.mergeSort fun a b => Text.notAfter a.1 b.1 := by
  apply List.mergeSort_of_pairwise
  apply List.pairwise_mergeSort
  · exact fun _ _ _ => Text.notAfter_trans
  · exact fun a b => Text.notAfter_total a.1 b.1

-- What is written of a value is read as the value with its members in order.
theorem indented_spells (proper : v.Proper) : Spells (v.indented depth) v.arranged := by
  induction proper generalizing depth with
  | null =>
    have word : Spells "null" null := spells_word (by simp [words])
    exact word
  | bool b =>
    have yes : Spells "true" (bool true) := spells_word (by simp [words])
    have no : Spells "false" (bool false) := spells_word (by simp [words])
    cases b
    · exact no
    · exact yes
  | int fits => exact spells_integer fits
  | float x => exact spells_float x
  | string s => exact spells_quoted s
  | @array items each ih =>
    rw [indented, arranged, indented_items, arranged_items]
    refine spells_array ?_ depth
    rw [List.forall₂_map_left_iff, List.forall₂_map_right_iff, List.forall₂_same]
    exact fun v member => ih v member (depth + 1)
  | @object members apart each ih =>
    rw [indented, arranged, indented_members, arranged_members, sorted_map, sorted_map, List.map_map]
    refine spells_object ?_ ?_ depth
    · rw [List.forall₂_map_left_iff, List.forall₂_map_right_iff, List.forall₂_same]
      exact fun m member => ⟨_, rfl, ih m (List.mem_mergeSort.1 member) (depth + 1)⟩
    · have perm := (List.mergeSort_perm members fun a b => Text.notAfter a.1 b.1).map (·.1)
      rw [List.map_map]
      exact perm.nodup_iff.2 apart

end Arranged

section Read

variable {fuel : Nat} {s r : Text} {v : Json}

theorem number_proper (read : number s = .ok (v, r)) : v.Proper := by
  unfold number at read
  dsimp only at read
  split at read
  · cases read
  · split at read
    · split at read
      · rename_i integer
        cases read
        exact .int (Number.read_integer_fits integer)
      · cases read
    · split at read
      · cases read
        exact .float _
      · cases read

theorem scalar_proper (read : scalar s = .ok (v, r)) : v.Proper := by
  unfold scalar at read
  split at read
  · rename_i word known found
    have listed := List.mem_of_find?_eq_some found
    cases read
    simp only [words, List.mem_cons, List.not_mem_nil, or_false, Prod.mk.injEq] at listed
    rcases listed with ⟨-, rfl⟩ | ⟨-, rfl⟩ | ⟨-, rfl⟩ | ⟨-, rfl⟩ | ⟨-, rfl⟩ | ⟨-, rfl⟩ <;> constructor
  · exact number_proper read

-- Every value that is read is proper, whatever the fuel.
theorem read_proper (fuel : Nat) :
    (∀ s v r, value fuel s = .ok (v, r) → v.Proper) ∧
    (∀ s vs r, readItems fuel s = .ok (vs, r) → ∀ v ∈ vs, v.Proper) ∧
    (∀ held s ms r, readMembers fuel held s = .ok (ms, r) → (object held).Proper → (object ms).Proper) := by
  induction fuel with
  | zero =>
    refine ⟨fun s v r read => ?_, fun s vs r read => ?_, fun held s ms r read => ?_⟩
    · cases read
    · cases read
    · cases read
  | succ fuel ih =>
    obtain ⟨values, lists, objects⟩ := ih
    refine ⟨fun s v r read => ?_, fun s vs r read => ?_, fun held s ms r read proper => ?_⟩
    · unfold value at read
      split at read
      · obtain ⟨⟨t, rest⟩, -, same⟩ := Outcome.bind_ok read
        cases same
        exact .string t
      · split at read
        · cases read
          exact .object .nil (List.forall_mem_nil _)
        · obtain ⟨⟨members, rest⟩, inner, same⟩ := Outcome.bind_ok read
          cases same
          exact objects _ _ _ _ inner (.object .nil (List.forall_mem_nil _))
      · split at read
        · cases read
          exact .array (List.forall_mem_nil _)
        · obtain ⟨⟨items, rest⟩, inner, same⟩ := Outcome.bind_ok read
          cases same
          exact .array (lists _ _ _ inner)
      · exact scalar_proper read
    · unfold readItems at read
      obtain ⟨⟨v, t⟩, first, read⟩ := Outcome.bind_ok read
      dsimp only at read
      split at read
      · cases read
        exact List.forall_mem_singleton.2 (values _ _ _ first)
      · obtain ⟨⟨more, rest⟩, later, same⟩ := Outcome.bind_ok read
        cases same
        exact List.forall_mem_cons.2 ⟨values _ _ _ first, lists _ _ _ later⟩
      · cases read
    · unfold readMembers at read
      split at read
      · obtain ⟨⟨name, t⟩, -, read⟩ := Outcome.bind_ok read
        dsimp only at read
        split at read
        · obtain ⟨⟨v, u⟩, first, read⟩ := Outcome.bind_ok read
          dsimp only at read
          have put := put_proper name proper (values _ _ _ first)
          split at read
          · cases read
            exact put
          · exact objects _ _ _ _ read put
          · cases read
        · cases read
      · cases read

theorem read_plain_proper (read : readPlain s = .ok v) : v.Proper := by
  unfold readPlain at read
  dsimp only at read
  split at read
  · cases read
  · rename_i first
    split at read
    · cases read
      exact (read_proper _).1 _ _ _ first
    · cases read

theorem read_is_proper (read : Json.read s = .ok v) : v.Proper := by
  unfold Json.read at read
  split at read
  · cases read
  · exact read_plain_proper read

theorem spells_read {t : Text} (spelt : Spells t v) : Json.read t = .ok v := by
  obtain ⟨c, r, rfl, plain, -⟩ := spelt.begins
  have closed : Closes [] := nofun
  have read : value ((c :: r).length + 1) (c :: r ++ []) = .ok (v, []) := spelt.read closed (by simp)
  rw [List.append_nil] at read
  have mark : c ≠ '\ufeff' := by
    rintro rfl
    cases read
  have first : skipSpace (c :: r) = c :: r := List.dropWhile_cons_of_neg (by simp [plain])
  rw [Json.read, if_neg (by simpa using mark), readPlain, first, read]
  rfl

-- A value that is proper is read from what is written of it, its members in order.
theorem pretty_read (proper : v.Proper) : Json.read v.pretty = .ok v.arranged := spells_read (indented_spells 0 proper)

theorem arranged_twice (proper : v.Proper) : v.arranged.arranged = v.arranged := by
  induction proper with
  | @array items each ih =>
    rw [arranged, arranged_items, arranged, arranged_items, List.map_map]
    exact congrArg array (List.map_congr_left ih)
  | @object members apart each ih =>
    have again : (members.map fun m => (m.1, m.2.arranged)).map (fun m => (m.1, m.2.arranged)) =
        members.map fun m => (m.1, m.2.arranged) := by
      rw [List.map_map]
      exact List.map_congr_left fun m member => Prod.ext rfl (ih m member)
    rw [arranged, arranged_members, arranged, arranged_members, ← sorted_map, again, sorted_again]
  | _ => rfl

theorem object_arranged {members : List (Text × Json)} (apart : (members.map (·.1)).Nodup) :
    ∃ sorted, (object members).arranged = object sorted ∧
      ∀ name, Keyed.get? name sorted = (Keyed.get? name members).map arranged := by
  refine ⟨_, rfl, fun name => ?_⟩
  have perm := List.mergeSort_perm (arrangedMembers members) fun a b => Text.notAfter a.1 b.1
  have names : (arrangedMembers members).map (·.1) = members.map (·.1) := by
    rw [arranged_members, List.map_map]
    rfl
  rw [Keyed.get?_perm perm ((perm.map (·.1)).nodup_iff.2 (names ▸ apart)), arranged_members, Keyed.get?_map]

end Read
end PipelineMigration.Json
