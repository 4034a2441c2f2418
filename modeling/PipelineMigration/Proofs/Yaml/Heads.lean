import Mathlib.Data.List.Induction
import PipelineMigration.Proofs.Yaml.Draw
set_option autoImplicit false

/- The keys of a mapping's own entries, and what the simplest blocks hold. When no two keys are the same, no entry
   gives way to a later one. Keys are read as the texts they are: an identifier stands without quotes and then may be a
   word for true, false or null, and every other key stands in quotes. -/
namespace PipelineMigration.Yaml

/-- Two keys that do not stand for one. -/
def Apart (a b : Value) : Prop := a.same b = false

instance (a b : Value) : Decidable (Apart a b) := inferInstanceAs (Decidable (_ = _))

theorem texts_apart {s t : Text} (different : s ≠ t) : Apart (.text s) (.text t) := by
  simpa [Apart, Value.same, Value.sameScalar] using different

theorem set_entry_fresh (k v : Value) (held : Entries) (fresh : ∀ e ∈ held, Apart e.1 k) :
    setEntry k v held = held ++ [(k, v)] := by
  induction held with
  | nil => rfl
  | cons e rest ih =>
    obtain ⟨here, others⟩ := List.forall_mem_cons.1 fresh
    have other : e.1.same k = false := here
    rw [setEntry, other, if_neg Bool.false_ne_true, ih others]
    rfl

theorem of_entries_distinct (entries : Entries) (distinct : (entries.map (·.1)).Pairwise Apart) :
    ofEntries entries = entries := by
  -- What is held so far and what is still to come are together the entries.
  have extend (more held : Entries) (distinct : ((held ++ more).map (·.1)).Pairwise Apart) :
      more.foldl (fun held e => setEntry e.1 e.2 held) held = held ++ more := by
    induction more generalizing held with
    | nil => exact (List.append_nil held).symm
    | cons e rest ih =>
      obtain ⟨k, v⟩ := e
      have fresh : ∀ d ∈ held, Apart d.1 k := by
        rw [List.map_append, List.pairwise_append] at distinct
        exact fun d member => distinct.2.2 d.1 (List.mem_map_of_mem member) k List.mem_cons_self
      rw [List.foldl_cons]
      dsimp only
      rw [set_entry_fresh k v held fresh, ih, List.append_assoc]
      · rfl
      · rwa [List.append_assoc]
  exact extend entries [] distinct

namespace Block

/-- The keys of the entries. -/
def heads : Block → List Key
  | done => []
  | quiet _ _ rest => rest.heads
  | leaf k _ rest => k :: rest.heads
  | words k _ rest => k :: rest.heads
  | records k _ rest => k :: rest.heads
  | nested k _ rest => k :: rest.heads

end Block

@[simp]
theorem heads_append (a b : Block) : (a ++ b).heads = a.heads ++ b.heads := by
  change (a.append b).heads = _
  induction a with
  | done => rfl
  | quiet _ _ rest ih => exact ih
  | leaf k _ rest ih => exact congrArg (k :: ·) ih
  | words k _ rest ih => exact congrArg (k :: ·) ih
  | records k _ rest ih => exact congrArg (k :: ·) ih
  | nested k _ rest _ ih => exact congrArg (k :: ·) ih

theorem entries_heads (b : Block) : b.entries.map (·.1) = b.heads.map Key.value := by
  induction b with
  | done => rfl
  | quiet _ _ rest ih => exact ih
  | leaf k _ rest ih => exact congrArg (k.value :: ·) ih
  | words k _ rest ih => exact congrArg (k.value :: ·) ih
  | records k _ rest ih => exact congrArg (k.value :: ·) ih
  | nested k _ rest _ ih => exact congrArg (k.value :: ·) ih

theorem of_entries_block (b : Block) (distinct : (b.heads.map Key.value).Pairwise Apart) :
    ofEntries b.entries = b.entries :=
  of_entries_distinct b.entries (entries_heads b ▸ distinct)

section Quiet

variable (indent : Nat) (remarks : List Text)

@[simp]
theorem quiet_remarks : (quietBlock indent remarks).remarks = remarks := by
  induction remarks with
  | nil => rfl
  | cons s rest ih => exact congrArg (s :: ·) ih

theorem quiet_parts {α : Type} (held : Block → List α) (done : held .done = [])
    (quiet : ∀ n s b, held (.quiet n s b) = held b) : held (quietBlock indent remarks) = [] := by
  induction remarks with
  | nil => exact done
  | cons s rest ih => exact (quiet indent s _).trans ih

@[simp]
theorem quiet_singles : (quietBlock indent remarks).singles = [] :=
  quiet_parts indent remarks Block.singles rfl fun _ _ _ => rfl

@[simp]
theorem quiet_keys : (quietBlock indent remarks).keys = [] :=
  quiet_parts indent remarks Block.keys rfl fun _ _ _ => rfl

@[simp]
theorem quiet_heads : (quietBlock indent remarks).heads = [] :=
  quiet_parts indent remarks Block.heads rfl fun _ _ _ => rfl

@[simp]
theorem quiet_entries : (quietBlock indent remarks).entries = [] :=
  quiet_parts indent remarks Block.entries rfl fun _ _ _ => rfl

end Quiet

/-- A block whose keys are no longer than a reader takes. -/
def Block.Short (b : Block) : Prop := ∀ k ∈ b.keys, k.isShort = true

theorem short_done : Block.done.Short := fun _ none => nomatch none

theorem short_append (a b : Block) : (a ++ b).Short ↔ a.Short ∧ b.Short := by
  unfold Block.Short
  rw [keys_append, List.forall_mem_append]

/-- A block without comments and without scalars in single quotes. -/
def Block.Silent (b : Block) : Prop := b.remarks = [] ∧ b.singles = []

theorem silent_append {a b : Block} (here : a.Silent) (there : b.Silent) : (a ++ b).Silent := by
  rw [Block.Silent, remarks_append, singles_append, here.1, here.2, there.1, there.2]
  exact ⟨rfl, rfl⟩

theorem silent_done : Block.done.Silent := ⟨rfl, rfl⟩

theorem silent_nested {key : Key} {body : Block} (body_silent : body.Silent) : (Block.nested key body .done).Silent := by
  refine ⟨?_, ?_⟩
  · rw [Block.remarks, body_silent.1]
    rfl
  · rw [Block.singles, body_silent.2]
    rfl

theorem silent_fields (fields : List (Key × Leaf)) (each : ∀ f ∈ fields, f.2.singles = []) :
    (fieldsBlock fields).Silent := by
  induction fields with
  | nil => exact silent_done
  | cons f rest ih =>
    obtain ⟨here, others⟩ := List.forall_mem_cons.1 each
    obtain ⟨remarks, singles⟩ := ih others
    have whole : (fieldsBlock (f :: rest)).singles = f.2.singles ++ (fieldsBlock rest).singles := rfl
    exact ⟨remarks, by rw [whole, here, singles]; rfl⟩

theorem fields_keys (fields : List (Key × Leaf)) : (fieldsBlock fields).keys = fields.map (·.1) := by
  induction fields with
  | nil => rfl
  | cons f rest ih => exact congrArg (f.1 :: ·) ih

/-- Whether a text without quotes is no word for something else. -/
def isOwnName (name : Text) : Bool := !Tag.boolWords.contains name && !Tag.nullWords.contains name

theorem own_name_iff (name : Text) : isOwnName name = true ↔ name ∉ Tag.boolWords ∧ name ∉ Tag.nullWords := by
  simp [isOwnName]

namespace Tag

theorem truth_look : ∀ w ∈ boolWords, ofPlain w = bool := by decide

theorem null_look_iff (s : Text) : ofPlain s = null ↔ s ∈ nullWords := by
  have words : ∀ w ∈ nullWords, ofPlain w = null := by decide
  refine ⟨fun look => ?_, words s⟩
  unfold ofPlain at look
  by_cases empty : s ∈ nullWords
  · exact empty
  · simp only [List.contains_iff_mem, empty, if_false] at look
    split_ifs at look

end Tag

/-- Whether a key is read as the text that it names. -/
def keepsName (name : Text) : Bool := !Text.isIdentifier name || isOwnName name

/-- A name as the key of a mapping, without quotes when it is an identifier. -/
def nameKey (name : Text) : Key := ⟨name, Text.isIdentifier name⟩

section Names

variable (name : Text)

theorem key_kept (kept : keepsName name = true) : (nameKey name).value = .text name := by
  unfold nameKey
  cases identifier : Text.isIdentifier name with
  | false => rfl
  | true =>
    have own : isOwnName name = true := by simpa [keepsName, identifier] using kept
    obtain ⟨truth, empty⟩ := (own_name_iff name).1 own
    rcases Tag.of_plain_identifier name identifier with ⟨word, -⟩ | look | look
    · exact absurd word truth
    · exact absurd ((Tag.null_look_iff name).1 look) empty
    · exact plain_value_eq (by rw [look]; rfl)

theorem key_lost (lost : keepsName name = false) :
    (nameKey name).value = .null ∨ ∃ b, (nameKey name).value = .bool b := by
  obtain ⟨identifier, word⟩ : Text.isIdentifier name = true ∧ isOwnName name = false := by
    simpa [keepsName] using lost
  unfold nameKey
  rw [identifier]
  by_cases truth : name ∈ Tag.boolWords
  · have done := truth_words_read name truth
    cases read : Scalar.bool name with
    | error f =>
      rw [read] at done
      cases done
    | ok b => exact .inr ⟨b, plain_value_eq (by rw [Tag.truth_look name truth, Scalar.value, read]; rfl)⟩
  · have empty : name ∈ Tag.nullWords := by
      by_contra full
      rw [(own_name_iff name).2 ⟨truth, full⟩] at word
      cases word
    exact .inl (plain_value_eq (by rw [(Tag.null_look_iff name).2 empty]; rfl))

theorem key_alike : (nameKey name).value.same (nameKey name).value = true := by
  cases kept : keepsName name with
  | true =>
    rw [key_kept name kept]
    simp [Value.same, Value.sameScalar]
  | false =>
    rcases key_lost name kept with null | ⟨b, truth⟩
    · rw [null]
      rfl
    · rw [truth]
      simp [Value.same, Value.sameScalar, Value.quotient?]

theorem text_of_same {v : Value} {s : Text} (same : (Value.text s).same v = true) : v = .text s := by
  cases v <;> simp_all [Value.same, Value.sameScalar, Value.quotient?, Value.sameBeyond]

end Names

section Covered

variable (k v : Value) (held entries : Entries)

theorem set_entry_keys : (setEntry k v held).map (·.1) =
    if held.any (·.1.same k) then held.map (·.1) else held.map (·.1) ++ [k] := by
  induction held with
  | nil => rfl
  | cons e rest ih =>
    obtain ⟨a, b⟩ := e
    by_cases same : a.same k = true
    · simp [setEntry, same]
    · simp only [setEntry, same, Bool.false_eq_true, if_false, List.map_cons, ih, List.any_cons, Bool.false_or]
      split <;> simp

theorem of_entries_concat (e : Value × Value) : ofEntries (entries ++ [e]) = setEntry e.1 e.2 (ofEntries entries) := by
  simp [ofEntries]

theorem of_entries_covers (alike : k.same k = true) (member : k ∈ entries.map (·.1)) :
    ∃ w ∈ (ofEntries entries).map (·.1), w.same k = true := by
  -- Entries come in from the left, so the last one meets what all others made.
  induction entries using List.reverseRecOn with
  | nil => cases member
  | append_singleton front e ih =>
    rw [of_entries_concat, set_entry_keys]
    rw [List.map_append, List.mem_append] at member
    rcases member with early | own
    · obtain ⟨w, among, same⟩ := ih early
      split
      · exact ⟨w, among, same⟩
      · exact ⟨w, List.mem_append_left _ among, same⟩
    -- The last key gives way only to one that is the same.
    · obtain rfl : k = e.1 := by simpa using own
      split
      · rename_i present
        obtain ⟨d, among, same⟩ := List.any_eq_true.1 present
        exact ⟨d.1, List.mem_map_of_mem among, same⟩
      · exact ⟨e.1, List.mem_append_right _ (List.mem_singleton_self _), alike⟩

end Covered

theorem names_read_iff (entries : List (Text × Value)) (distinct : (entries.map (·.1)).Nodup) :
    ofEntries (entries.map fun e => ((nameKey e.1).value, e.2)) = entries.map (fun e => (.text e.1, e.2)) ↔
      ∀ e ∈ entries, keepsName e.1 = true := by
  constructor
  · intro read e member
    have key : (nameKey e.1).value ∈ (entries.map fun e => ((nameKey e.1).value, e.2)).map (·.1) := by
      rw [List.map_map]
      exact List.mem_map.2 ⟨e, member, rfl⟩
    obtain ⟨w, among, same⟩ := of_entries_covers _ _ (key_alike e.1) key
    rw [read, List.map_map] at among
    obtain ⟨d, -, rfl⟩ := List.mem_map.1 among
    have text := text_of_same same
    -- What a name that is lost is read as is no text.
    by_contra lost
    rcases key_lost e.1 (by simpa using lost) with null | ⟨b, truth⟩
    · cases text.symm.trans null
    · cases text.symm.trans truth
  · intro kept
    have texts : entries.map (fun e => ((nameKey e.1).value, e.2)) = entries.map fun e => (.text e.1, e.2) :=
      List.map_congr_left fun e member => by rw [key_kept e.1 (kept e member)]
    have apart := List.pairwise_map.2 (distinct.imp texts_apart)
    rw [List.map_map] at apart
    rw [texts]
    refine of_entries_distinct _ ?_
    rwa [List.map_map]

end PipelineMigration.Yaml
