import PipelineMigration.Proofs.Yaml.Look
import PipelineMigration.Proofs.Yaml.Tree
set_option autoImplicit false

/- What a block says: the value that is read from its text. A scalar in double quotes as a text of its own stays on one
   line, and reading it gives the text that was quoted, whatever its characters are. -/
namespace PipelineMigration.Yaml

/-- The value of a plain scalar, null where its look promises what it does not keep. -/
def plainValue (s : Text) : Value := (Scalar.value (Tag.ofPlain s) s).toOption.getD .null

def Key.value (k : Key) : Value := if k.bare then plainValue k.name else .text k.name

noncomputable def Written.value : Written → Value
  | plain s => plainValue s
  | double s => .text s
  | single s => .text (singleText s)

/-- Whether a plain scalar is what its look promises. -/
def Written.isSound : Written → Bool
  | plain s => (Scalar.value (Tag.ofPlain s) s).isOk
  | _ => true

noncomputable def Leaf.value : Leaf → Value
  | scalar w => w.value
  | list items => .list (items.map .text)
  | emptyMapping => .mapping []

def Leaf.isSound : Leaf → Bool
  | scalar w => w.isSound
  | _ => true

noncomputable def Record.entries (r : Record) : Entries := (r.first :: r.others).map fun (k, l) => (k.value, l.value)

namespace Block

/-- The entries of a block, before those of one key are made one. -/
noncomputable def entries : Block → Entries
  | done => []
  | quiet _ _ rest => rest.entries
  | leaf k l rest => (k.value, l.value) :: rest.entries
  | words k items rest => (k.value, .list (items.map Written.value)) :: rest.entries
  | records k items rest => (k.value, .list (items.map fun r => .mapping (ofEntries r.entries))) :: rest.entries
  | nested k inner rest => (k.value, .mapping (ofEntries inner.entries)) :: rest.entries

/-- Whether every plain scalar is what its look promises. -/
def isSound : Block → Bool
  | done => true
  | quiet _ _ rest => rest.isSound
  | leaf _ l rest => l.isSound && rest.isSound
  | words _ items rest => items.all (·.isSound) && rest.isSound
  | records _ items rest => items.all (fun r => (r.first :: r.others).all (·.2.isSound)) && rest.isSound
  | nested _ inner rest => inner.isSound && rest.isSound

end Block

section Build

variable (depth : Nat) (b : Building)

theorem plain_value_eq {s : Text} {v : Value} (read : Scalar.value (Tag.ofPlain s) s = .ok v) : plainValue s = v := by
  unfold plainValue
  rw [read]
  rfl

theorem build_scalar {tag : Tag} {s : Text} {v : Value} (read : Scalar.value tag s = .ok v) :
    build depth (.scalar none tag s) b = (v, b) := by
  rw [build, read]
  rfl

theorem build_written (w : Written) (sound : w.isSound = true) : build depth w.node b = (w.value, b) := by
  cases w with
  | plain s =>
    cases read : Scalar.value (Tag.ofPlain s) s with
    | error f =>
      rw [Written.isSound, read] at sound
      cases sound
    | ok v => exact (build_scalar depth b read).trans (by rw [Written.value, plain_value_eq read])
  | double s => exact build_scalar depth b rfl
  | single s => exact build_scalar depth b rfl

theorem build_texts (items : List Text) :
    buildItems depth (items.map fun s => .scalar none .text s) b = (items.map .text, b) := by
  induction items with
  | nil => rfl
  | cons s rest ih =>
    rw [List.map_cons, buildItems, @build_scalar depth b .text s (.text s) rfl]
    dsimp only
    rw [ih]
    rfl

theorem build_leaf (l : Leaf) (sound : l.isSound = true) : build depth l.node b = (l.value, b) := by
  cases l with
  | scalar w => exact build_written depth b w sound
  | list items =>
    rw [Leaf.node, build, build_texts]
    rfl
  | emptyMapping => rfl

theorem build_words (items : List Written) (sound : items.all (·.isSound) = true) :
    buildItems depth (items.map Written.node) b = (items.map Written.value, b) := by
  induction items with
  | nil => rfl
  | cons w rest ih =>
    obtain ⟨here, later⟩ : w.isSound = true ∧ rest.all (·.isSound) = true := by simpa using sound
    rw [List.map_cons, buildItems, build_written depth b w here]
    dsimp only
    rw [ih later]
    rfl

theorem key_value (k : Key) (fits : k.Fits) : k.node.isMergeKey = false ∧ k.value.unhashable? = none ∧
    buildKey depth k.node b = (k.value, b) := by
  obtain ⟨name, bare⟩ := k
  cases bare with
  | false => exact ⟨rfl, rfl, rfl⟩
  | true =>
    obtain ⟨unmerged, own, v, read, hashable⟩ := identifier_value name (fits rfl)
    have value : Key.value ⟨name, true⟩ = v := plain_value_eq read
    refine ⟨?_, ?_, ?_⟩
    · simpa [Key.node, Node.isMergeKey] using unmerged
    · rw [value, hashable]
    · rw [value]
      simp only [Key.node, if_true, buildKey]
      rw [if_neg (by simpa using own), read]
      rfl

theorem build_entry (k : Key) (fits : k.Fits) (n : Node) {v : Value} (read : build depth n b = (v, b))
    (rest : List (Node × Node)) : buildEntries depth ((k.node, n) :: rest) b =
      ((buildEntries depth rest b).1, (k.value, v) :: (buildEntries depth rest b).2.1,
        (buildEntries depth rest b).2.2) := by
  obtain ⟨unmerged, hashable, key⟩ := key_value depth b k fits
  rw [buildEntries, unmerged, if_neg Bool.false_ne_true, key]
  dsimp only
  rw [hashable]
  dsimp only [Option.isSome_none, Building.failIf]
  rw [if_neg Bool.false_ne_true, read]

theorem build_mapping (nodes : List (Node × Node)) {own : Entries}
    (read : buildEntries (depth + 1) nodes b = ([], own, b)) :
    build depth (.mapping none .mapping nodes) b = (.mapping (ofEntries own), b) := by
  have noted : b.note none (.recurrence true) = b := rfl
  rw [build, noted]
  dsimp only
  rw [read]
  rfl

theorem build_fields (fields : List (Key × Leaf)) (fits : ∀ f ∈ fields, f.1.Fits ∧ f.2.Fits)
    (sound : fields.all (·.2.isSound) = true) : buildEntries depth (fields.map fun (k, l) => (k.node, l.node)) b =
      ([], fields.map fun (k, l) => (k.value, l.value), b) := by
  induction fields with
  | nil => rfl
  | cons f rest ih =>
    obtain ⟨here, later⟩ : f.2.isSound = true ∧ rest.all (·.2.isSound) = true := by simpa using sound
    obtain ⟨fit, others⟩ := List.forall_mem_cons.1 fits
    rw [List.map_cons, build_entry depth b f.1 fit.1 _ (build_leaf depth b f.2 here), ih others later]
    rfl

theorem build_records (items : List Record) (fits : ∀ r ∈ items, ∀ f ∈ r.first :: r.others, f.1.Fits ∧ f.2.Fits)
    (sound : items.all (fun r => (r.first :: r.others).all (·.2.isSound)) = true) :
    buildItems depth (items.map fun r => .mapping none .mapping r.nodes) b =
      (items.map fun r => .mapping (ofEntries r.entries), b) := by
  induction items with
  | nil => rfl
  | cons r rest ih =>
    rw [List.all_cons, Bool.and_eq_true] at sound
    obtain ⟨fit, others⟩ := List.forall_mem_cons.1 fits
    rw [List.map_cons, buildItems, build_mapping depth b r.nodes
      (build_fields (depth + 1) b (r.first :: r.others) fit sound.1)]
    dsimp only
    rw [ih others sound.2]
    rfl

theorem build_sequence (nodes : List Node) {vs : List Value} (read : buildItems (depth + 1) nodes b = (vs, b)) :
    build depth (.sequence none .list nodes) b = (.list vs, b) := by
  have noted : b.note none (.recurrence false) = b := rfl
  rw [build, noted]
  dsimp only
  rw [read]
  rfl

end Build

theorem build_block (b : Building) (block : Block) (fits : block.Fits) (sound : block.isSound = true) (depth : Nat) :
    buildEntries depth block.nodes b = ([], block.entries, b) := by
  induction block generalizing depth with
  | done => rfl
  | quiet _ _ rest ih => exact ih fits sound depth
  | leaf k l rest ih =>
    obtain ⟨here, later⟩ := Bool.and_eq_true_iff.1 sound
    rw [Block.nodes, build_entry depth b k fits.1 _ (build_leaf depth b l here), ih fits.2.2 later]
    rfl
  | words k items rest ih =>
    obtain ⟨here, later⟩ := Bool.and_eq_true_iff.1 sound
    have value := build_sequence depth b _ (build_words (depth + 1) b items here)
    rw [Block.nodes, build_entry depth b k fits.1 _ value, ih fits.2.2.2 later]
    rfl
  | records k items rest ih =>
    obtain ⟨here, later⟩ := Bool.and_eq_true_iff.1 sound
    have value := build_sequence depth b _ (build_records (depth + 1) b items fits.2.2.1 here)
    rw [Block.nodes, build_entry depth b k fits.1 _ value, ih fits.2.2.2 later]
    rfl
  | nested k inner rest ihInner ih =>
    obtain ⟨here, later⟩ := Bool.and_eq_true_iff.1 sound
    have value := build_mapping depth b _ (ihInner fits.2.2.1 here (depth + 1))
    rw [Block.nodes, build_entry depth b k fits.1 _ value, ih fits.2.2.2 later]
    rfl

-- The text of a block is read as its mapping when nothing in it keeps it from being read.
theorem read_block (block : Block) (fits : block.Fits) (sound : block.isSound = true)
    (filled : block.hasEntry = true) (quiet : ∀ r ∈ block.remarks, isRemark r = true)
    (markless : block.text.head? ≠ some '\ufeff')
    (allowed : block.text.all isAllowed = true) (readable : block.isReadable = true) :
    read block.text = .ok (.mapping (ofEntries block.entries)) := by
  have built := build_mapping 0 {} block.nodes (build_block {} block fits sound 1)
  unfold read
  rw [allowed, block_tokens block fits quiet markless filled readable, Node.block_document, if_neg (by decide)]
  dsimp only [bind, Except.bind]
  rw [built]
  rfl

-- A text with characters that no document may hold, or whose tokens do not come to an end, is malformed.
theorem read_malformed {text : Text} (unread : text.all isAllowed = true → Unended (tokens text)) :
    read text = .error .malformed := by
  unfold read
  split
  · rfl
  · rename_i allowed
    have inner := unread (by simpa using allowed)
    have closed := Node.of_tokens_closed (tokens text)
    cases parsed : Node.ofTokens? (tokens text) with
    | ok m =>
      rw [parsed] at closed
      exact absurd (inner _ closed) Bool.false_ne_true
    | error f =>
      rw [parsed] at closed
      have malformed : f = .malformed := closed.elim id fun member => by simpa [Token.isInner] using inner _ member
      rw [malformed]
      rfl

namespace Scan

section Unbound

variable (s : Scan) (unbound : ∀ k ∈ s.possibleKeys, k.required = false)

include unbound

theorem none_required (p : PossibleKey → Bool) : ¬ (s.possibleKeys.any fun k => p k && k.required) = true := by
  simp only [List.any_eq_true, Bool.and_eq_true, not_exists, not_and, Bool.not_eq_true]
  exact fun k member _ => unbound k member

-- Keys that need not become keys are given up without a fault.
theorem drop_stale_unbound :
    s.dropStaleKeys = .ok { s with possibleKeys := s.possibleKeys.filter fun k => !isStale s.cursor k } :=
  if_neg (none_required s unbound _)

theorem drop_key_unbound :
    s.dropKey = .ok { s with possibleKeys := s.possibleKeys.filter fun k => k.depth != s.depth } :=
  if_neg (none_required s unbound _)

end Unbound

-- At the end of a text without collections nothing more is read.
theorem run_end (fuel : Nat) (s : Scan) (ends : s.cursor.rest = []) (outermost : s.indent = -1)
    (positive : 0 < s.budget) (unbound : ∀ k ∈ s.possibleKeys, k.required = false) :
    run (fuel + 1) s = (Token.streamEnd :: s.tokens).reverse := by
  have skipped : skipToToken s.budget s = s.goTo s.cursor :=
    @skip_to_token_opens [] rfl s 0 s.budget positive ends
  have settled : (skipToToken s.budget s).dropStaleKeys =
      .ok { s with possibleKeys := s.possibleKeys.filter fun k => !isStale s.cursor k } := by
    rw [skipped]
    exact drop_stale_unbound (s.goTo s.cursor) unbound
  rw [run_succ fuel s _ settled]
  generalize left : s.possibleKeys.filter (fun k => !isStale s.cursor k) = keys
  have kept : ∀ k ∈ keys, k.required = false := by
    rw [← left]
    exact fun k member => unbound k (List.mem_filter.1 member).1
  have closed (column : Int) (inside : -1 ≤ column) :
      ({ s with possibleKeys := keys } : Scan).close column = { s with possibleKeys := keys } :=
    close_of_le _ column (outermost ▸ inside)
  unfold proceed
  rw [closed _ (by dsimp only; omega)]
  dsimp only
  rw [ends]
  dsimp only
  rw [closed (-1) (Int.le_refl _), drop_key_unbound _ kept]

end Scan

open Scan

theorem quote_head (s : Text) : (quote s).head? = some '"' := rfl

theorem tokens_quote (s : Text) : tokens (quote s) = [.scalar s false, .streamEnd] := by
  let c : Cursor := { rest := quote s }
  let budget := (quote s).length + 2
  have start : ((poised c budget [] [] true).skipToToken budget).dropStaleKeys =
      .ok (poised c budget [] [] true) :=
    @settle_spaces c budget [] [] true (quote s) rfl 0 rfl (Nat.succ_pos _)
  have closed : (poised c budget [] [] true).close c.column = poised c budget [] [] true :=
    close_of_le _ _ (by simp [poised, Stack.top, c])
  -- Outside of every collection the scalar may become a key, but nothing requires it to.
  have word : (poised c budget [] [] true).word doubleWord =
      .ok (afterWord c (c.advance (quote s).length) budget [] [] (.scalar s false) true) :=
    @double_word_poised c budget [] [] true [] s (List.append_nil _).symm (by simp [budget, c])
  have ends : (c.advance (quote s).length).rest = [] := by
    rw [Cursor.advance_rest]
    exact List.drop_length
  have unbound : ∀ k ∈ [noted c [] 0], k.required = false := List.forall_mem_singleton.2 rfl
  have begun : tokens (quote s) = (poised c budget [] [] true).proceed ((quote s).length + 1) := by
    unfold tokens
    dsimp only
    rw [if_neg (by rw [quote_head]; decide)]
    exact run_succ _ (poised c budget [] [] true) _ start
  have first : (poised c budget [] [] true).cursor.rest = '"' :: (s.flatMap quoteChar ++ ['"']) := rfl
  rw [begun]
  unfold proceed
  rw [show (poised c budget [] [] true).cursor.column = c.column from rfl, closed]
  dsimp only
  rw [first]
  dsimp only
  rw [token_double, word]
  exact run_end _ _ ends rfl (Nat.succ_pos _) unbound

theorem quoted_document (s : Text) :
    Node.ofTokens? [.scalar s false, .streamEnd] = .ok (some (.scalar none .text s)) := rfl

theorem read_quote (s : Text) : read (quote s) = .ok (.text s) := by
  have allowed : (quote s).all isAllowed = true := List.all_eq_true.2 fun y member => (quote_clean s y member).2
  unfold read
  rw [allowed, tokens_quote, quoted_document, if_neg (by decide)]
  dsimp only [bind, Except.bind]
  rw [@build_scalar 0 {} .text s (.text s) rfl]
  rfl

/-- Every text in double quotes is one scalar on one line without a character that a reader refuses, and is read
    as the text. -/
theorem quote_lossless (s : Text) :
    (∃ inner, quote s = '"' :: inner ++ ['"']) ∧
      (∀ y ∈ quote s, isBreak y = false ∧ isAllowed y = true) ∧
      tokens (quote s) = [.scalar s false, .streamEnd] ∧ read (quote s) = .ok (.text s) :=
  ⟨⟨s.flatMap quoteChar, rfl⟩, quote_clean s, tokens_quote s, read_quote s⟩

end PipelineMigration.Yaml
