import PipelineMigration.Proofs.Outcome
import PipelineMigration.Yaml.Document
import PipelineMigration.Proofs.Yaml.Block
set_option autoImplicit false

/- The tree that the tokens of a block spell. -/
namespace PipelineMigration.Yaml

open Outcome (bind_ok)

namespace Node

/-- What reading a part comes to: less is left to read, or a fault, which is that of a token unless the
    text is malformed. -/
def Kept {α : Type} (r : Rest) : Except Fault (α × Rest) → Prop
  | .ok (_, s) => s.tokens ⊆ r.tokens
  | .error f => f = .malformed ∨ Token.broken f ∈ r.tokens

section Kept

variable {α β : Type} {r s : Rest}

theorem kept_here (a : α) (r : Rest) : Kept r (.ok (a, r)) := List.Subset.refl _

theorem kept_malformed : Kept r (.error .malformed : Except Fault (α × Rest)) := .inl rfl

theorem kept_fault : Kept r (.error r.fault : Except Fault (α × Rest)) := by
  unfold Rest.fault
  split
  · rename_i same
    exact .inr (same ▸ List.mem_cons_self)
  · exact .inl rfl

theorem Kept.within {x : Except Fault (α × Rest)} (kept : Kept s x) (less : s.tokens ⊆ r.tokens) : Kept r x := by
  cases x with
  | ok a => exact List.Subset.trans kept less
  | error f => exact kept.imp_right fun member => less member

theorem Kept.bind {x : Except Fault (α × Rest)} {g : α × Rest → Except Fault (β × Rest)} (kept : Kept r x)
    (next : ∀ a s, Kept s (g (a, s))) : Kept r (x >>= g) := by
  cases x with
  | ok a => exact (next a.1 a.2).within kept
  | error f => exact kept

end Kept

theorem drop_subset (r : Rest) : r.drop.tokens ⊆ r.tokens := List.drop_subset 1 r.tokens

theorem kept_drop {α : Type} (a : α) (r : Rest) : Kept r (.ok (a, r.drop)) := drop_subset r

theorem anchor_subset (r : Rest) : (anchorOf r).2.tokens ⊆ r.tokens := by
  unfold anchorOf
  split
  · rename_i t same
    rw [same]
    exact List.subset_cons_self _ _
  · exact List.Subset.refl _

theorem tag_kept (handles : Handles) (r : Rest) : Kept r (tagOf handles r) := by
  unfold tagOf
  split
  · rename_i t same
    exact fun x member => same ▸ List.mem_cons_of_mem _ member
  · rename_i t same
    split
    · exact fun x member => same ▸ List.mem_cons_of_mem _ member
    · exact kept_malformed
  · exact kept_here _ r

theorem note_kept {α : Type} (anchor : Option Text) (r : Rest) (a : α) :
    Kept r (noteAnchor anchor r >>= fun s => pure (a, s)) := by
  unfold noteAnchor
  split
  · exact kept_here a r
  · split
    · exact kept_malformed
    · exact List.Subset.refl _

theorem properties_kept (handles : Handles) (r : Rest) : Kept r (properties handles r) := by
  have first : Kept r (tagOf handles (anchorOf r).2) := (tag_kept handles _).within (anchor_subset r)
  refine first.bind fun tag s => ?_
  have second : (if (anchorOf r).1.isSome then ((anchorOf r).1, s) else anchorOf s).2.tokens ⊆ s.tokens := by
    split
    · exact List.Subset.refl _
    · exact anchor_subset s
  exact (note_kept _ _ _).within second

/-- What every way of reading keeps, with some fuel. -/
structure Keeps (handles : Handles) (fuel : Nat) : Prop where
  parse : ∀ block flush r, Kept r (Node.parse handles fuel block flush r)
  parseUnless : ∀ ends block flush r, Kept r (Node.parseUnless handles fuel ends block flush r)
  parseValue : ∀ ends block r, Kept r (Node.parseValue handles fuel ends block r)
  blockItems : ∀ r, Kept r (Node.blockItems handles fuel r)
  flushItems : ∀ r, Kept r (Node.flushItems handles fuel r)
  blockEntries : ∀ r, Kept r (Node.blockEntries handles fuel r)
  flowItems : ∀ first r, Kept r (Node.flowItems handles fuel first r)
  flowEntries : ∀ first r, Kept r (Node.flowEntries handles fuel first r)

section Step

variable {handles : Handles} {fuel : Nat} (keeps : Keeps handles fuel) (r : Rest)

include keeps

theorem parse_kept (block flush : Bool) : Kept r (parse handles (fuel + 1) block flush r) := by
  rw [parse]
  split
  · rename_i t same
    split
    · exact fun x member => same ▸ List.mem_cons_of_mem _ member
    · exact kept_malformed
  · refine (properties_kept handles r).bind fun p u => ?_
    dsimp only
    split
    · exact kept_drop _ u
    · exact ((keeps.flowItems true u.drop).within (drop_subset u)).bind fun items => kept_here _
    · exact ((keeps.flowEntries true u.drop).within (drop_subset u)).bind fun entries => kept_here _
    · split
      · exact (keeps.flushItems u).bind fun items => kept_here _
      · split
        · exact ((keeps.blockItems u.drop).within (drop_subset u)).bind fun items => kept_here _
        · split
          · exact ((keeps.blockEntries u.drop).within (drop_subset u)).bind fun entries => kept_here _
          · split
            · exact kept_here _ u
            · exact kept_fault
    · exact kept_fault

theorem parse_unless_kept (ends : List Token) (block flush : Bool) :
    Kept r (parseUnless handles (fuel + 1) ends block flush r) := by
  rw [parseUnless]
  split
  · exact kept_here empty r
  · exact keeps.parse block flush r

theorem parse_value_kept (ends : List Token) (block : Bool) :
    Kept r (parseValue handles (fuel + 1) ends block r) := by
  rw [parseValue]
  split
  · exact (keeps.parseUnless ends block block r.drop).within (drop_subset r)
  · exact kept_here empty r

theorem block_items_kept : Kept r (blockItems handles (fuel + 1) r) := by
  rw [blockItems]
  split
  · refine ((keeps.parseUnless _ true false r.drop).within (drop_subset r)).bind fun item t => ?_
    exact (keeps.blockItems t).bind fun items => kept_here _
  · split
    · exact kept_drop [] r
    · exact kept_fault

theorem flush_items_kept : Kept r (flushItems handles (fuel + 1) r) := by
  rw [flushItems]
  split
  · refine ((keeps.parseUnless _ true false r.drop).within (drop_subset r)).bind fun item t => ?_
    exact (keeps.flushItems t).bind fun items => kept_here _
  · exact kept_here [] r

theorem block_entries_kept : Kept r (blockEntries handles (fuel + 1) r) := by
  rw [blockEntries]
  split
  · refine ((keeps.parseUnless _ true true r.drop).within (drop_subset r)).bind fun k t => ?_
    refine (keeps.parseValue _ true t).bind fun v u => ?_
    exact (keeps.blockEntries u).bind fun entries => kept_here _
  · split
    · exact kept_drop [] r
    · exact kept_fault

omit keeps in
theorem after_comma (first : Bool) : (if first then r else r.drop).tokens ⊆ r.tokens := by
  split
  · exact List.Subset.refl _
  · exact drop_subset r

theorem flow_items_kept (first : Bool) : Kept r (flowItems handles (fuel + 1) first r) := by
  have after := after_comma r first
  rw [flowItems]
  dsimp only
  generalize (if first then r else r.drop) = q at after
  split
  · exact kept_drop [] r
  · split
    · exact kept_fault
    · refine Kept.within (s := q) ?_ after
      split
      · refine ((keeps.parseUnless _ false false q.drop).within (drop_subset q)).bind fun k t => ?_
        refine (keeps.parseValue _ false t).bind fun v u => ?_
        exact (keeps.flowItems false u).bind fun items => kept_here _
      · split
        · exact kept_drop [] q
        · refine (keeps.parse false false q).bind fun item t => ?_
          exact (keeps.flowItems false t).bind fun items => kept_here _

theorem flow_entries_kept (first : Bool) : Kept r (flowEntries handles (fuel + 1) first r) := by
  have after := after_comma r first
  rw [flowEntries]
  dsimp only
  generalize (if first then r else r.drop) = q at after
  split
  · exact kept_drop [] r
  · split
    · exact kept_fault
    · refine Kept.within (s := q) ?_ after
      split
      · refine ((keeps.parseUnless _ false false q.drop).within (drop_subset q)).bind fun k t => ?_
        refine (keeps.parseValue _ false t).bind fun v u => ?_
        exact (keeps.flowEntries false u).bind fun entries => kept_here _
      · split
        · exact kept_drop [] q
        · refine (keeps.parse false false q).bind fun k t => ?_
          exact (keeps.flowEntries false t).bind fun entries => kept_here _

end Step

theorem keeps (handles : Handles) (fuel : Nat) : Keeps handles fuel := by
  induction fuel with
  | zero =>
    refine ⟨fun _ _ _ => ?_, fun _ _ _ _ => ?_, fun _ _ _ => ?_, fun _ => ?_, fun _ => ?_, fun _ => ?_,
      fun _ _ => ?_, fun _ _ => ?_⟩
    · rw [parse]; exact kept_fault
    · rw [parseUnless]; exact kept_fault
    · rw [parseValue]; exact kept_fault
    · rw [blockItems]; exact kept_fault
    · rw [flushItems]; exact kept_fault
    · rw [blockEntries]; exact kept_fault
    · rw [flowItems]; exact kept_fault
    · rw [flowEntries]; exact kept_fault
  | succ fuel ih =>
    exact ⟨fun block flush r => parse_kept ih r block flush,
      fun ends block flush r => parse_unless_kept ih r ends block flush,
      fun ends block r => parse_value_kept ih r ends block, block_items_kept ih, flush_items_kept ih,
      block_entries_kept ih, fun first r => flow_items_kept ih r first, fun first r => flow_entries_kept ih r first⟩

/-- What reading a whole stream comes to: the stream has an end, or a fault, which is that of a token
    unless the text is malformed. -/
def Closed (t : List Token) : Except Fault (Option Node) → Prop
  | .ok _ => Token.streamEnd ∈ t
  | .error f => f = .malformed ∨ Token.broken f ∈ t

theorem Closed.within {s t : List Token} {x : Except Fault (Option Node)} (closed : Closed s x) (less : s ⊆ t) :
    Closed t x := by
  cases x with
  | ok m => exact less closed
  | error f => exact closed.imp_right fun member => less member

theorem closed_fault (r : Rest) : Closed r.tokens (.error r.fault) :=
  (kept_fault : Kept r (.error r.fault : Except Fault (Node × Rest)))

theorem skip_ends_subset (t : List Token) : skipEnds t ⊆ t := by
  induction t using skipEnds.induct with
  | case1 t ih =>
    rw [skipEnds]
    exact List.subset_cons_of_subset _ ih
  | case2 t other =>
    rw [skipEnds]
    · exact fun _ member => member
    · exact other

theorem at_end_closed (n : Node) (r : Rest) : Closed r.tokens (atEnd n r) := by
  unfold atEnd
  split
  · rename_i t same
    exact skip_ends_subset r.tokens (by rw [same]; exact List.mem_cons_self)
  · exact (closed_fault ⟨skipEnds r.tokens, []⟩).within (skip_ends_subset r.tokens)

theorem parse_root_closed (handles : Handles) (t : List Token) : Closed t (parseRoot handles t) := by
  have read := (keeps handles (4 * t.length + 4)).parse true false { tokens := t }
  unfold parseRoot
  cases result : parse handles (4 * t.length + 4) true false { tokens := t } with
  | ok a =>
    rw [result] at read
    exact (at_end_closed a.1 a.2).within read
  | error f =>
    rw [result] at read
    exact read

/-- Directives are part of the tokens, and what is wrong with them is malformed. -/
def Led (t : List Token) : Except Fault (Handles × List Token) → Prop
  | .ok (_, left) => left ⊆ t
  | .error f => f = .malformed

theorem Led.cons {t : List Token} {d : Token} {x : Except Fault (Handles × List Token)} (led : Led t x) :
    Led (d :: t) x := by
  cases x with
  | ok a => exact List.subset_cons_of_subset _ led
  | error f => exact led

theorem directives_led (versioned : Bool) (handles : Handles) (t : List Token) :
    Led t (directives versioned handles t) := by
  induction versioned, handles, t using directives.induct with
  | case1 versioned handles major t bad =>
    rw [directives, if_pos bad]
    rfl
  | case2 versioned handles major t good ih =>
    rw [directives, if_neg good]
    exact ih.cons
  | case3 versioned handles handle uri t twice =>
    rw [directives, if_pos twice]
    rfl
  | case4 versioned handles handle uri t once ih =>
    rw [directives, if_neg once]
    exact ih.cons
  | case5 versioned handles t ih =>
    rw [directives]
    exact ih.cons
  | case6 versioned handles t a b c =>
    rw [directives]
    · exact List.Subset.refl _
    all_goals assumption

theorem explicit_closed (t : List Token) : Closed t (explicitDocument t) := by
  have led := directives_led false [] t
  unfold explicitDocument
  cases read : directives false [] t with
  | error f =>
    rw [read] at led
    exact .inl led
  | ok a =>
    obtain ⟨handles, left⟩ := a
    rw [read] at led
    refine Closed.within (s := left) ?_ led
    dsimp only [bind, Except.bind]
    split
    · refine Closed.within ?_ (List.subset_cons_self _ _)
      split
      · exact at_end_closed empty _
      · exact parse_root_closed handles _
    · exact closed_fault ⟨left, []⟩

-- A stream that is read has an end, and one that is not is malformed or breaks off.
theorem of_tokens_closed (t : List Token) : Closed t (ofTokens? t) := by
  unfold ofTokens?
  split
  · exact List.mem_cons_self
  · exact explicit_closed _
  · exact explicit_closed _
  · exact parse_root_closed standardHandles _

end Node

noncomputable def Written.node : Written → Node
  | plain s => .scalar none (Tag.ofPlain s) s
  | double s => .scalar none .text s
  | single s => .scalar none .text (singleText s)

noncomputable def Leaf.node : Leaf → Node
  | scalar w => w.node
  | list items => .sequence none .list (items.map fun s => .scalar none .text s)
  | emptyMapping => .mapping none .mapping []

def Key.node (k : Key) : Node := .scalar none (if k.bare then Tag.ofPlain k.name else .text) k.name

noncomputable def Record.nodes (r : Record) : List (Node × Node) :=
  (r.first :: r.others).map fun (k, l) => (k.node, l.node)

/-- The nodes of the entries. -/
noncomputable def Block.nodes : Block → List (Node × Node)
  | done => []
  | quiet _ _ rest => rest.nodes
  | leaf k l rest => (k.node, l.node) :: rest.nodes
  | words k items rest => (k.node, .sequence none .list (items.map Written.node)) :: rest.nodes
  | records k items rest =>
    (k.node, .sequence none .list (items.map fun r => .mapping none .mapping r.nodes)) :: rest.nodes
  | nested k inner rest => (k.node, .mapping none .mapping inner.nodes) :: rest.nodes

namespace Node

section Parse

variable (handles : Handles) {anchors : List Text} {more : List Token}

theorem parse_written (w : Written) (fuel : Nat) (block flush : Bool) (positive : 0 < fuel) :
    parse handles fuel block flush ⟨w.token :: more, anchors⟩ = .ok (w.node, ⟨more, anchors⟩) := by
  obtain ⟨fuel, rfl⟩ := Nat.exists_eq_succ_of_ne_zero (Nat.ne_of_gt positive)
  cases w <;> rfl

theorem parse_key (k : Key) (fuel : Nat) (block flush : Bool) (positive : 0 < fuel) :
    parse handles fuel block flush ⟨k.token :: more, anchors⟩ = .ok (k.node, ⟨more, anchors⟩) := by
  obtain ⟨fuel, rfl⟩ := Nat.exists_eq_succ_of_ne_zero (Nat.ne_of_gt positive)
  obtain ⟨name, bare⟩ := k
  cases bare <;> rfl

theorem flow_items_step (first : Bool) (s : Text) (t : List Token) (fuel : Nat) :
    flowItems handles (fuel + 2) first ⟨(if first then [] else [.flowEntry]) ++ .scalar s false :: t, anchors⟩ =
      (do let (items, r) ← flowItems handles (fuel + 1) false ⟨t, anchors⟩
          pure (.scalar none .text s :: items, r)) := by
  cases first <;> rfl

-- The items of a list, the first after the bracket or after a comma.
theorem flow_items_read (anchors : List Text) (more : List Token) (items : List Text) (s : Text) (first : Bool)
    (fuel : Nat) (enough : items.length + 1 < fuel) : flowItems handles fuel first
      ⟨(if first then [] else [.flowEntry]) ++ (Leaf.itemTokens (s :: items) ++ .flowSequenceEnd :: more), anchors⟩ =
        .ok ((s :: items).map fun s => .scalar none .text s, ⟨more, anchors⟩) := by
  obtain ⟨fuel, rfl⟩ := Nat.exists_eq_add_of_le (m := 2) (n := fuel) (by omega)
  rw [Nat.add_comm]
  induction items generalizing s first fuel with
  | nil =>
    refine (flow_items_step handles first s (.flowSequenceEnd :: more) fuel).trans ?_
    rfl
  | cons t items ih =>
    rw [List.length_cons] at enough
    obtain ⟨fuel, rfl⟩ := Nat.exists_eq_succ_of_ne_zero (n := fuel) (by omega)
    have further := ih t false fuel (by omega)
    refine (flow_items_step handles first s (.flowEntry :: (Leaf.itemTokens (t :: items) ++
      .flowSequenceEnd :: more)) (fuel + 1)).trans ?_
    have same : flowItems handles (fuel + 1 + 1) false ⟨.flowEntry :: (Leaf.itemTokens (t :: items) ++
        .flowSequenceEnd :: more), anchors⟩ =
          .ok ((t :: items).map fun s => .scalar none .text s, ⟨more, anchors⟩) := further
    rw [same]
    rfl

theorem item_tokens_length (items : List Text) (s : Text) :
    items.length < (Leaf.itemTokens (s :: items)).length := by
  induction items generalizing s with
  | nil => exact Nat.zero_lt_one
  | cons t items ih =>
    have further := ih t
    simp only [Leaf.itemTokens, List.length_cons] at further ⊢
    omega

theorem parse_leaf (anchors : List Text) (more : List Token) (l : Leaf) (fuel : Nat) (block flush : Bool)
    (enough : l.tokens.length < fuel) :
    parse handles fuel block flush ⟨l.tokens ++ more, anchors⟩ = .ok (l.node, ⟨more, anchors⟩) := by
  have positive := Nat.zero_lt_of_lt enough
  cases l with
  | scalar w => exact parse_written handles w fuel block flush positive
  | list items =>
    obtain ⟨fuel, rfl⟩ := Nat.exists_eq_succ_of_ne_zero (Nat.ne_of_gt positive)
    have opened : parse handles (fuel + 1) block flush ⟨(Leaf.list items).tokens ++ more, anchors⟩ =
        (do let (items, r) ← flowItems handles fuel true
              ⟨Leaf.itemTokens items ++ .flowSequenceEnd :: more, anchors⟩
            pure (.sequence none .list items, r)) := by
      rw [Leaf.tokens, List.cons_append, List.cons_append, List.append_assoc]
      rfl
    rw [opened]
    cases items with
    | nil =>
      obtain ⟨fuel, rfl⟩ := Nat.exists_eq_succ_of_ne_zero (n := fuel) (by
        simp [Leaf.tokens, Leaf.itemTokens] at enough
        omega)
      rfl
    | cons s items =>
      have bound := item_tokens_length items s
      have read := flow_items_read handles anchors more items s true fuel (by
        simp only [Leaf.tokens, List.length_cons, List.length_append] at enough
        omega)
      simp only [if_true, List.nil_append] at read
      rw [read]
      rfl
  | emptyMapping =>
    obtain ⟨fuel, rfl⟩ := Nat.exists_eq_add_of_le (m := 2) (n := fuel) (by
      simp [Leaf.tokens] at enough
      omega)
    rw [Nat.add_comm]
    rfl

theorem parse_unless_read {ends : List Token} {t : Token} {u : List Token} (block flush : Bool) (fuel : Nat)
    (other : ends.contains t = false) : parseUnless handles (fuel + 1) ends block flush ⟨t :: u, anchors⟩ =
      parse handles fuel block flush ⟨t :: u, anchors⟩ := by
  have unmet : (Rest.mk (t :: u) anchors).meets ends = false := other
  rw [parseUnless, unmet]
  rfl

-- An entry of a block mapping: its key, its value and the entries after it.
theorem entry_step (k : Key) (t : Token) (u : List Token) (fuel : Nat)
    (other : [Token.key, .value, .blockEnd].contains t = false) :
    blockEntries handles (fuel + 4) ⟨.key :: k.token :: .value :: t :: u, anchors⟩ =
      (do let (v, r) ← parse handles (fuel + 1) true true ⟨t :: u, anchors⟩
          let (entries, r) ← blockEntries handles (fuel + 3) r
          pure ((k.node, v) :: entries, r)) := by
  have key : parseUnless handles (fuel + 3) [.key, .value, .blockEnd] true true
      ⟨k.token :: .value :: t :: u, anchors⟩ = .ok (k.node, ⟨.value :: t :: u, anchors⟩) := by
    rw [parse_unless_read handles true true (fuel + 2) (by cases k; rfl)]
    exact parse_key handles k (fuel + 2) true true (by omega)
  have value : parseValue handles (fuel + 3) [.key, .value, .blockEnd] true ⟨.value :: t :: u, anchors⟩ =
      parse handles (fuel + 1) true true ⟨t :: u, anchors⟩ :=
    parse_unless_read handles true true (fuel + 1) other
  have met : (Rest.mk (.key :: k.token :: .value :: t :: u) anchors).meets [.key] = true := rfl
  rw [blockEntries, met, if_pos rfl]
  change (parseUnless handles (fuel + 3) _ true true ⟨k.token :: .value :: t :: u, anchors⟩).bind _ = _
  rw [key]
  change (parseValue handles (fuel + 3) _ true ⟨.value :: t :: u, anchors⟩).bind _ = _
  rw [value]
  rfl

theorem leaf_first (l : Leaf) : ∃ t u, l.tokens = t :: u ∧
    [Token.key, .value, .blockEnd].contains t = false := by
  cases l with
  | scalar w => cases w <;> exact ⟨_, _, rfl, rfl⟩
  | list items => exact ⟨_, _, rfl, rfl⟩
  | emptyMapping => exact ⟨_, _, rfl, rfl⟩

-- An entry whose value is read from the tokens after it.
theorem value_step (k : Key) {value : List Token} {n : Node} (fuel : Nat)
    (first : ∃ t u, value = t :: u ∧ [Token.key, .value, .blockEnd].contains t = false)
    (read : parse handles (fuel + 1) true true ⟨value ++ more, anchors⟩ = .ok (n, ⟨more, anchors⟩)) :
    blockEntries handles (fuel + 4) ⟨Block.entryTokens k value ++ more, anchors⟩ =
      (do let (entries, r) ← blockEntries handles (fuel + 3) ⟨more, anchors⟩
          pure ((k.node, n) :: entries, r)) := by
  obtain ⟨t, u, rfl, other⟩ := first
  refine (entry_step handles k t (u ++ more) fuel other).trans ?_
  rw [List.cons_append] at read
  rw [read]
  rfl

theorem leaf_step (k : Key) (l : Leaf) (fuel : Nat) (enough : l.tokens.length ≤ fuel) :
    blockEntries handles (fuel + 4) ⟨Block.entryTokens k l.tokens ++ more, anchors⟩ =
      (do let (entries, r) ← blockEntries handles (fuel + 3) ⟨more, anchors⟩
          pure ((k.node, l.node) :: entries, r)) :=
  value_step handles k fuel (leaf_first l)
    (parse_leaf handles anchors more l (fuel + 1) true true (Nat.lt_succ_of_le enough))

theorem entry_tokens_length (k : Key) (value : List Token) :
    (Block.entryTokens k value).length = value.length + 3 := rfl

theorem entries_end (fuel : Nat) (positive : 0 < fuel) :
    blockEntries handles fuel ⟨.blockEnd :: more, anchors⟩ = .ok ([], ⟨more, anchors⟩) := by
  obtain ⟨fuel, rfl⟩ := Nat.exists_eq_succ_of_ne_zero (Nat.ne_of_gt positive)
  rfl

theorem items_end (fuel : Nat) (positive : 0 < fuel) :
    blockItems handles fuel ⟨.blockEnd :: more, anchors⟩ = .ok ([], ⟨more, anchors⟩) := by
  obtain ⟨fuel, rfl⟩ := Nat.exists_eq_succ_of_ne_zero (Nat.ne_of_gt positive)
  rfl

theorem fields_read (fields : List (Key × Leaf)) (fuel : Nat)
    (enough : (fields.flatMap fun (k, l) => Block.entryTokens k l.tokens).length + 4 ≤ fuel) :
    blockEntries handles fuel
      ⟨(fields.flatMap fun (k, l) => Block.entryTokens k l.tokens) ++ .blockEnd :: more, anchors⟩ =
        .ok (fields.map fun (k, l) => (k.node, l.node), ⟨more, anchors⟩) := by
  induction fields generalizing fuel with
  | nil => exact entries_end handles fuel (by omega)
  | cons f rest ih =>
    rw [List.flatMap_cons, List.length_append, entry_tokens_length] at enough
    obtain ⟨fuel, rfl⟩ := Nat.exists_eq_add_of_le' (m := 4) (n := fuel) (by omega)
    rw [List.flatMap_cons, List.append_assoc, leaf_step handles f.1 f.2 fuel (by omega), ih (fuel + 3) (by omega)]
    rfl

theorem mapping_read {t : List Token} {entries : List (Node × Node)} (flush : Bool) (fuel : Nat)
    (read : blockEntries handles fuel ⟨t ++ .blockEnd :: more, anchors⟩ = .ok (entries, ⟨more, anchors⟩)) :
    parse handles (fuel + 1) true flush ⟨.blockMappingStart :: t ++ [.blockEnd] ++ more, anchors⟩ =
      .ok (.mapping none .mapping entries, ⟨more, anchors⟩) := by
  have opened : parse handles (fuel + 1) true flush ⟨.blockMappingStart :: (t ++ .blockEnd :: more), anchors⟩ =
      (do let (entries, r) ← blockEntries handles fuel ⟨t ++ .blockEnd :: more, anchors⟩
          pure (.mapping none .mapping entries, r)) := by
    cases flush <;> rfl
  rw [List.append_assoc, List.cons_append, List.singleton_append, opened, read]
  rfl

theorem sequence_read {t : List Token} {items : List Node} (flush : Bool) (fuel : Nat)
    (read : blockItems handles fuel ⟨t ++ .blockEnd :: more, anchors⟩ = .ok (items, ⟨more, anchors⟩)) :
    parse handles (fuel + 1) true flush ⟨.blockSequenceStart :: t ++ [.blockEnd] ++ more, anchors⟩ =
      .ok (.sequence none .list items, ⟨more, anchors⟩) := by
  have opened : parse handles (fuel + 1) true flush ⟨.blockSequenceStart :: (t ++ .blockEnd :: more), anchors⟩ =
      (do let (items, r) ← blockItems handles fuel ⟨t ++ .blockEnd :: more, anchors⟩
          pure (.sequence none .list items, r)) := by
    cases flush <;> rfl
  rw [List.append_assoc, List.cons_append, List.singleton_append, opened, read]
  rfl

theorem item_step {value : List Token} {n : Node} (fuel : Nat)
    (first : ∃ t u, value = t :: u ∧ [Token.blockEntry, .blockEnd].contains t = false)
    (read : parse handles fuel true false ⟨value ++ more, anchors⟩ = .ok (n, ⟨more, anchors⟩)) :
    blockItems handles (fuel + 2) ⟨.blockEntry :: value ++ more, anchors⟩ =
      (do let (items, r) ← blockItems handles (fuel + 1) ⟨more, anchors⟩
          pure (n :: items, r)) := by
  obtain ⟨t, u, rfl, other⟩ := first
  have item : parseUnless handles (fuel + 1) [.blockEntry, .blockEnd] true false ⟨t :: u ++ more, anchors⟩ =
      .ok (n, ⟨more, anchors⟩) := (parse_unless_read handles true false fuel other).trans read
  have met : (Rest.mk (.blockEntry :: (t :: u ++ more)) anchors).meets [.blockEntry] = true := rfl
  rw [List.cons_append, blockItems, met, if_pos rfl]
  change (parseUnless handles (fuel + 1) _ true false ⟨t :: u ++ more, anchors⟩).bind _ = _
  rw [item]
  rfl

theorem items_read (items : List Written) (fuel : Nat) (enough : items.length + 2 ≤ fuel) :
    blockItems handles fuel ⟨(items.flatMap fun w => [.blockEntry, w.token]) ++ .blockEnd :: more, anchors⟩ =
      .ok (items.map Written.node, ⟨more, anchors⟩) := by
  induction items generalizing fuel with
  | nil => exact items_end handles fuel (by omega)
  | cons w rest ih =>
    rw [List.length_cons] at enough
    obtain ⟨fuel, rfl⟩ := Nat.exists_eq_add_of_le' (m := 2) (n := fuel) (by omega)
    rw [List.flatMap_cons, List.append_assoc]
    refine (item_step handles fuel ⟨w.token, [], rfl, by cases w <;> rfl⟩
      (parse_written handles w fuel true false (by omega))).trans ?_
    rw [ih (fuel + 1) (by omega)]
    rfl

theorem record_tokens (r : Record) : Block.recordTokens r = .blockEntry :: (.blockMappingStart ::
    ((r.first :: r.others).flatMap fun (k, l) => Block.entryTokens k l.tokens) ++ [.blockEnd]) := rfl

theorem records_read (items : List Record) (fuel : Nat)
    (enough : (items.flatMap Block.recordTokens).length + 4 ≤ fuel) :
    blockItems handles fuel ⟨items.flatMap Block.recordTokens ++ .blockEnd :: more, anchors⟩ =
      .ok (items.map fun r => .mapping none .mapping r.nodes, ⟨more, anchors⟩) := by
  induction items generalizing fuel with
  | nil => exact items_end handles fuel (by omega)
  | cons r rest ih =>
    rw [List.flatMap_cons, List.length_append, record_tokens, List.cons_append, List.length_cons, List.length_cons,
      List.length_append, List.length_singleton] at enough
    obtain ⟨fuel, rfl⟩ := Nat.exists_eq_add_of_le' (m := 3) (n := fuel) (by omega)
    rw [List.flatMap_cons, List.append_assoc, record_tokens]
    refine (item_step handles (fuel + 1) ⟨_, _, rfl, rfl⟩
      (mapping_read handles false fuel (fields_read handles (r.first :: r.others) fuel (by omega)))).trans ?_
    rw [ih (fuel + 2) (by omega)]
    rfl

theorem pair_tokens_length (items : List Written) :
    (items.flatMap fun w => [Token.blockEntry, w.token]).length = 2 * items.length := by
  induction items with
  | nil => rfl
  | cons w rest ih =>
    rw [List.flatMap_cons, List.length_append, ih]
    simp only [List.length_cons, List.length_nil]
    omega

-- The tokens of a block's entries are read as its nodes.
theorem block_read (b : Block) (fuel : Nat) (enough : b.tokens.length + 4 ≤ fuel) :
    blockEntries handles fuel ⟨b.tokens ++ .blockEnd :: more, anchors⟩ = .ok (b.nodes, ⟨more, anchors⟩) := by
  induction b generalizing fuel more with
  | done => exact entries_end handles fuel (by omega)
  | quiet _ _ rest ih => exact ih fuel enough
  | leaf k l rest ih =>
    rw [Block.tokens, List.length_append, entry_tokens_length] at enough
    obtain ⟨fuel, rfl⟩ := Nat.exists_eq_add_of_le' (m := 4) (n := fuel) (by omega)
    rw [Block.tokens, List.append_assoc, leaf_step handles k l fuel (by omega), ih (fuel + 3) (by omega)]
    rfl
  | words k items rest ih =>
    have pairs := pair_tokens_length items
    rw [Block.tokens, List.length_append, entry_tokens_length, List.cons_append, List.length_cons,
      List.length_append, List.length_singleton] at enough
    obtain ⟨fuel, rfl⟩ := Nat.exists_eq_add_of_le' (m := 4) (n := fuel) (by omega)
    rw [Block.tokens, List.append_assoc]
    refine (value_step handles k fuel ⟨_, _, rfl, rfl⟩
      (sequence_read handles true fuel (items_read handles items fuel (by omega)))).trans ?_
    rw [ih (fuel + 3) (by omega)]
    rfl
  | records k items rest ih =>
    rw [Block.tokens, List.length_append, entry_tokens_length, List.cons_append, List.length_cons,
      List.length_append, List.length_singleton] at enough
    obtain ⟨fuel, rfl⟩ := Nat.exists_eq_add_of_le' (m := 4) (n := fuel) (by omega)
    rw [Block.tokens, List.append_assoc]
    refine (value_step handles k fuel ⟨_, _, rfl, rfl⟩
      (sequence_read handles true fuel (records_read handles items fuel (by omega)))).trans ?_
    rw [ih (fuel + 3) (by omega)]
    rfl
  | nested k inner rest ihInner ih =>
    rw [Block.tokens, List.length_append, entry_tokens_length, List.cons_append, List.length_cons,
      List.length_append, List.length_singleton] at enough
    obtain ⟨fuel, rfl⟩ := Nat.exists_eq_add_of_le' (m := 4) (n := fuel) (by omega)
    rw [Block.tokens, List.append_assoc]
    refine (value_step handles k fuel ⟨_, _, rfl, rfl⟩
      (mapping_read handles true fuel (ihInner fuel (by omega)))).trans ?_
    rw [ih (fuel + 3) (by omega)]
    rfl

theorem block_document (b : Block) : ofTokens? (.blockMappingStart :: b.tokens ++ [.blockEnd, .streamEnd]) =
    .ok (some (.mapping none .mapping b.nodes)) := by
  have whole : Token.blockMappingStart :: b.tokens ++ [Token.blockEnd, .streamEnd] =
      .blockMappingStart :: b.tokens ++ [.blockEnd] ++ [.streamEnd] := by simp
  have length : (Token.blockMappingStart :: b.tokens ++ [Token.blockEnd, Token.streamEnd]).length =
      b.tokens.length + 3 := by simp
  change parseRoot standardHandles _ = _
  unfold parseRoot
  rw [length, whole, mapping_read standardHandles false _ (block_read standardHandles b _ (by omega))]
  rfl

end Parse
end Node
end PipelineMigration.Yaml
