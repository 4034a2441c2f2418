import Mathlib.Tactic.Tauto
import PipelineMigration.Proofs.Yaml.Content
set_option autoImplicit false

/- What decides whether a block can be read: the characters of its comments and of its scalars in single
   quotes, the marks in these, and the length of its keys. -/
namespace PipelineMigration.Yaml

/-- The texts that stand in single quotes. -/
def Leaf.singles : Leaf → List Text
  | scalar (.single s) => [s]
  | _ => []

def Written.singles (w : Written) : List Text := (Leaf.scalar w).singles

namespace Block

def singles : Block → List Text
  | done => []
  | quiet _ _ rest => rest.singles
  | leaf _ l rest => l.singles ++ rest.singles
  | words _ items rest => items.flatMap Written.singles ++ rest.singles
  | records _ items rest => items.flatMap (fun r => (r.first :: r.others).flatMap (·.2.singles)) ++ rest.singles
  | nested _ inner rest => inner.singles ++ rest.singles

/-- The keys of all its mappings. -/
def keys : Block → List Key
  | done => []
  | quiet _ _ rest => rest.keys
  | leaf k _ rest => k :: rest.keys
  | words k _ rest => k :: rest.keys
  | records k items rest => k :: items.flatMap (fun r => (r.first :: r.others).map (·.1)) ++ rest.keys
  | nested k inner rest => k :: inner.keys ++ rest.keys

end Block

section Append

variable (a b : Block)

@[simp]
theorem remarks_append : (a ++ b).remarks = a.remarks ++ b.remarks := by
  change (a.append b).remarks = _
  induction a with
  | nested k inner rest _ ih => simp [Block.append, Block.remarks, ih]
  | _ => simp_all [Block.append, Block.remarks]

@[simp]
theorem singles_append : (a ++ b).singles = a.singles ++ b.singles := by
  change (a.append b).singles = _
  induction a with
  | nested k inner rest _ ih => simp [Block.append, Block.singles, ih]
  | _ => simp_all [Block.append, Block.singles]

@[simp]
theorem keys_append : (a ++ b).keys = a.keys ++ b.keys := by
  change (a.append b).keys = _
  induction a with
  | nested k inner rest _ ih => simp [Block.append, Block.keys, ih]
  | _ => simp_all [Block.append, Block.keys]

@[simp]
theorem entries_append : (a ++ b).entries = a.entries ++ b.entries := by
  change (a.append b).entries = _
  induction a with
  | nested k inner rest _ ih => simp [Block.append, Block.entries, ih]
  | _ => simp_all [Block.append, Block.entries]

@[simp]
theorem fits_append : (a ++ b).Fits ↔ a.Fits ∧ b.Fits := by
  change (a.append b).Fits ↔ _
  induction a with
  | nested k inner rest _ ih => simp [Block.append, Block.Fits, ih, and_assoc]
  | _ => simp_all [Block.append, Block.Fits, and_assoc]

@[simp]
theorem sound_append : (a ++ b).isSound = (a.isSound && b.isSound) := by
  change (a.append b).isSound = _
  induction a with
  | nested k inner rest _ ih => simp [Block.append, Block.isSound, ih, Bool.and_assoc]
  | _ => simp_all [Block.append, Block.isSound, Bool.and_assoc]

@[simp]
theorem has_entry_append : (a ++ b).hasEntry = (a.hasEntry || b.hasEntry) := by
  change (a.append b).hasEntry = _
  induction a with
  | nested k inner rest _ ih => simp [Block.append, Block.hasEntry]
  | _ => simp_all [Block.append, Block.hasEntry]

end Append

theorem leaf_unmarked_iff (l : Leaf) : l.isUnmarked = true ↔ ∀ s ∈ l.singles, meetsMark s = false := by
  match l with
  | .scalar (.single s) => simp [Leaf.isUnmarked, Written.isUnmarked, Leaf.singles]
  | .scalar (.plain s) => simp [Leaf.isUnmarked, Written.isUnmarked, Leaf.singles]
  | .scalar (.double s) => simp [Leaf.isUnmarked, Written.isUnmarked, Leaf.singles]
  | .list items => simp [Leaf.isUnmarked, Leaf.singles]
  | .emptyMapping => simp [Leaf.isUnmarked, Leaf.singles]

-- A block can be read when its keys are short and no mark follows a line break in single quotes.
theorem block_readable_iff (b : Block) : b.isReadable = true ↔
    (∀ k ∈ b.keys, k.isShort = true) ∧ ∀ s ∈ b.singles, meetsMark s = false := by
  have written (w : Written) : w.isUnmarked = true ↔ ∀ s ∈ w.singles, meetsMark s = false :=
    leaf_unmarked_iff (.scalar w)
  induction b with
  | done => simp [Block.isReadable, Block.keys, Block.singles]
  | quiet _ _ rest ih => exact ih
  | leaf k l rest ih =>
    simp only [Block.isReadable, Block.keys, Block.singles, Bool.and_eq_true, ih, leaf_unmarked_iff,
      List.forall_mem_cons, List.forall_mem_append]
    tauto
  | words k items rest ih =>
    simp only [Block.isReadable, Block.keys, Block.singles, Bool.and_eq_true, ih, List.all_eq_true, written,
      List.forall_mem_cons, List.forall_mem_append, List.forall_mem_flatMap]
    tauto
  | records k items rest ih =>
    simp only [Block.isReadable, Block.keys, Block.singles, Bool.and_eq_true, ih, List.all_eq_true,
      leaf_unmarked_iff, List.cons_append, List.forall_mem_cons, List.forall_mem_append, List.forall_mem_flatMap,
      List.forall_mem_map]
    constructor
    · rintro ⟨⟨short, each⟩, keys, marks⟩
      exact ⟨⟨short, fun r member => ⟨(each r member).1.1, fun f field => ((each r member).2 f field).1⟩, keys⟩,
        fun r member => ⟨(each r member).1.2, fun f field => ((each r member).2 f field).2⟩, marks⟩
    · rintro ⟨⟨short, keysHere, keys⟩, marksHere, marks⟩
      exact ⟨⟨short, fun r member => ⟨⟨(keysHere r member).1, (marksHere r member).1⟩, fun f field =>
        ⟨(keysHere r member).2 f field, (marksHere r member).2 f field⟩⟩⟩, keys, marks⟩
  | nested k inner rest ihInner ih =>
    simp only [Block.isReadable, Block.keys, Block.singles, Bool.and_eq_true, ihInner, ih, List.cons_append,
      List.forall_mem_cons, List.forall_mem_append]
    tauto

section Allowed

theorem spaces_allowed (n : Nat) : (List.replicate n ' ').all isAllowed = true := by
  rw [List.all_eq_true]
  intro x member
  rw [List.eq_of_mem_replicate member]
  rfl

theorem quote_allowed (s : Text) : (quote s).all isAllowed = true :=
  List.all_eq_true.2 fun x member => (quote_clean s x member).2

theorem name_allowed (name : Text) (chars : ∀ x ∈ name, Text.isIdentifierRest x = true) :
    name.all isAllowed = true := by
  rw [List.all_eq_true]
  intro x member
  have rest := chars x member
  simp only [Text.isIdentifierRest, Text.isAsciiLetter, Text.isAsciiDigit, Bool.or_eq_true, Bool.and_eq_true,
    decide_eq_true_eq, beq_iff_eq, Char.le_def, UInt32.le_iff_toNat_le] at rest
  have code : x.val.toNat = x.toNat := rfl
  have printed : 0x20 ≤ x.toNat ∧ x.toNat ≤ 0x7e := by
    rcases rest with ((⟨low, high⟩ | ⟨low, high⟩) | ⟨low, high⟩) | rfl
    · exact ⟨Nat.le_trans (by decide) low, Nat.le_trans high (by decide)⟩
    · exact ⟨Nat.le_trans (by decide) low, Nat.le_trans high (by decide)⟩
    · exact ⟨Nat.le_trans (by decide) low, Nat.le_trans high (by decide)⟩
    · decide
  simp [isAllowed, printed.1, printed.2]

theorem key_allowed (k : Key) (fits : k.Fits) : k.text.all isAllowed = true := by
  unfold Key.text
  split
  · rename_i bare
    exact name_allowed k.name (identifier_chars k.name (fits bare)).2
  · exact quote_allowed k.name

theorem join_all (p : Char → Bool) (separator : Text) (parts : List Text) (between : separator.all p = true)
    (all : ∀ s ∈ parts, s.all p = true) : (Text.join separator parts).all p = true := by
  induction parts with
  | nil => rfl
  | cons s rest ih =>
    obtain ⟨here, others⟩ := List.forall_mem_cons.1 all
    cases rest with
    | nil => simpa [Text.join, List.intercalate] using here
    | cons t rest =>
      have joined : Text.join separator (s :: t :: rest) = s ++ (separator ++ Text.join separator (t :: rest)) := by
        simp [Text.join, List.intercalate]
      rw [joined, List.all_append, List.all_append, here, between, ih others]
      rfl

theorem single_quote_allowed (s : Text) : (singleQuote s).all isAllowed = s.all isAllowed := by
  have inner : (s.flatMap doubled).all isAllowed = s.all isAllowed := by
    induction s with
    | nil => rfl
    | cons x r ih =>
      rw [List.flatMap_cons, List.all_append, ih, List.all_cons]
      congr 1
      by_cases mark : x = '\''
      · subst mark
        decide
      · simp [doubled_of_ne x mark]
  have mark : isAllowed '\'' = true := by decide
  rw [single_quote_eq, List.cons_append, List.all_cons, List.all_append, inner, mark]
  simp [mark]

theorem leaf_allowed_iff (l : Leaf) (fits : l.Fits) :
    l.text.all isAllowed = true ↔ ∀ s ∈ l.singles, s.all isAllowed = true := by
  cases l with
  | scalar w => cases w with
    | plain s => exact iff_of_true fits.2.2 (List.forall_mem_nil _)
    | double s => exact iff_of_true (quote_allowed s) (List.forall_mem_nil _)
    | single s =>
      rw [Leaf.text, Written.text, single_quote_allowed]
      simp [Leaf.singles]
  | list items =>
    have joined := join_all isAllowed ", ".toList (items.map quote) (by decide) fun s member => by
      obtain ⟨t, -, rfl⟩ := List.mem_map.1 member
      exact quote_allowed t
    have whole : (Leaf.list items).text.all isAllowed = true := by
      rw [Leaf.text, quotedList, List.all_append, List.all_append, joined]
      decide
    simpa [Leaf.singles] using whole
  | emptyMapping => exact iff_of_true (by decide) (List.forall_mem_nil _)

theorem written_allowed_iff (w : Written) (fits : w.Fits) :
    w.text.all isAllowed = true ↔ ∀ s ∈ w.singles, s.all isAllowed = true :=
  leaf_allowed_iff (.scalar w) fits

theorem item_allowed (column : Nat) (w : Written) :
    (Line.item column w).text.all isAllowed = w.text.all isAllowed := by
  have dash : ("- ".toList).all isAllowed = true := by decide
  rw [Line.text, Line.content, List.all_append, List.all_append, spaces_allowed, dash]
  rfl

theorem entry_allowed (column : Nat) (dash : Bool) (k : Key) (leaf : Option Leaf) (fits : k.Fits) :
    (Line.entry column dash k leaf).text.all isAllowed = leaf.all (·.text.all isAllowed) := by
  have dashed : (Line.dashText dash).all isAllowed = true := by cases dash <;> decide
  have colon : isAllowed ':' = true := by decide
  have space : isAllowed ' ' = true := by decide
  rw [Line.text, Line.content, List.all_append, List.all_append, List.all_append, spaces_allowed, dashed,
    key_allowed k fits, List.all_cons, colon]
  cases leaf with
  | none => rfl
  | some l => rw [Line.leafText, List.all_cons, space]; rfl

theorem words_allowed_iff (items : List Written) (fits : ∀ w ∈ items, w.Fits) :
    (∀ w ∈ items, w.text.all isAllowed = true) ↔ ∀ s ∈ items.flatMap Written.singles, s.all isAllowed = true := by
  rw [List.forall_mem_flatMap]
  exact forall₂_congr fun w member => written_allowed_iff w (fits w member)

theorem record_allowed_iff (r : Record) (column : Nat) (fits : ∀ f ∈ r.first :: r.others, f.1.Fits ∧ f.2.Fits) :
    (∀ l ∈ Record.lines column r, l.text.all isAllowed = true) ↔
      ∀ s ∈ (r.first :: r.others).flatMap (·.2.singles), s.all isAllowed = true := by
  have first := fits r.first List.mem_cons_self
  rw [Record.lines, List.forall_mem_cons, List.forall_mem_map, entry_allowed _ _ _ _ first.1,
    List.forall_mem_flatMap, List.forall_mem_cons]
  refine and_congr (leaf_allowed_iff _ first.2) (forall₂_congr fun f field => ?_)
  have own := fits f (List.mem_cons_of_mem _ field)
  rw [entry_allowed _ _ _ _ own.1]
  exact leaf_allowed_iff _ own.2

-- The rows of a block have only characters that a document may hold when its comments and its scalars in
-- single quotes do.
theorem rows_allowed_iff (b : Block) (fits : b.Fits) (column : Nat) :
    (∀ r ∈ b.rows column, r.text.all isAllowed = true) ↔
      (∀ s ∈ b.remarks, s.all isAllowed = true) ∧ ∀ s ∈ b.singles, s.all isAllowed = true := by
  induction b generalizing column with
  | done => simp [Block.rows, Block.remarks, Block.singles]
  | quiet n s rest ih =>
    rw [Block.rows, List.forall_mem_cons, ih fits column, Row.text, List.all_append, spaces_allowed]
    simp [Block.remarks, Block.singles, and_assoc]
  | leaf k l rest ih =>
    rw [Block.rows, List.forall_mem_cons, ih fits.2.2 column, Row.text, entry_allowed _ _ _ _ fits.1]
    simp only [Option.all_some, leaf_allowed_iff l fits.2.1, Block.remarks, Block.singles, List.forall_mem_append]
    tauto
  | words k items rest ih =>
    have each := words_allowed_iff items fits.2.2.1
    rw [Block.rows, List.cons_append, List.forall_mem_cons, List.forall_mem_append, ih fits.2.2.2 column, Row.text,
      entry_allowed _ _ _ _ fits.1, List.forall_mem_map]
    simp only [Option.all_none, Row.text, item_allowed, each, Block.remarks, Block.singles, List.forall_mem_append]
    tauto
  | records k items rest ih =>
    have each : (∀ r ∈ items, ∀ l ∈ Record.lines (column + 2) r, l.text.all isAllowed = true) ↔
        ∀ s ∈ items.flatMap (fun r => (r.first :: r.others).flatMap (·.2.singles)), s.all isAllowed = true := by
      rw [List.forall_mem_flatMap]
      exact forall₂_congr fun r member => record_allowed_iff r (column + 2) (fits.2.2.1 r member)
    rw [Block.rows, List.cons_append, List.forall_mem_cons, List.forall_mem_append, ih fits.2.2.2 column, Row.text,
      entry_allowed _ _ _ _ fits.1, List.forall_mem_flatMap]
    simp only [Option.all_none, List.forall_mem_map, Row.text, each, Block.remarks, Block.singles,
      List.forall_mem_append]
    tauto
  | nested k inner rest ihInner ih =>
    rw [Block.rows, List.cons_append, List.forall_mem_cons, List.forall_mem_append,
      ihInner fits.2.2.1 (column + 2), ih fits.2.2.2 column, Row.text, entry_allowed _ _ _ _ fits.1]
    simp only [Option.all_none, Block.remarks, Block.singles, List.forall_mem_append]
    tauto

theorem text_allowed_iff (b : Block) (fits : b.Fits) : b.text.all isAllowed = true ↔
    (∀ s ∈ b.remarks, s.all isAllowed = true) ∧ ∀ s ∈ b.singles, s.all isAllowed = true := by
  rw [← rows_allowed_iff b fits 0, Block.text, List.all_flatMap, List.all_eq_true]
  have feed : isAllowed '\n' = true := by decide
  simp [feed]

end Allowed

/-- What must hold of the comments, scalars in single quotes and keys of a block for it to be read. -/
structure Block.Clean (b : Block) : Prop where
  remarks : ∀ s ∈ b.remarks, s.all isAllowed = true
  singles : ∀ s ∈ b.singles, s.all isAllowed = true ∧ meetsMark s = false
  keys : ∀ k ∈ b.keys, k.isShort = true

theorem clean_iff (b : Block) (fits : b.Fits) : b.Clean ↔ b.text.all isAllowed = true ∧
    (∀ s ∈ b.singles, meetsMark s = false) ∧ ∀ k ∈ b.keys, k.isShort = true := by
  rw [text_allowed_iff b fits]
  constructor
  · rintro ⟨remarks, singles, keys⟩
    exact ⟨⟨remarks, fun s member => (singles s member).1⟩, fun s member => (singles s member).2, keys⟩
  · rintro ⟨⟨remarks, allowed⟩, marks, keys⟩
    exact ⟨remarks, fun s member => ⟨allowed s member, marks s member⟩, keys⟩

section Read

variable (b : Block) (fits : b.Fits) (quiet : ∀ r ∈ b.remarks, isRemark r = true)
  (markless : b.text.head? ≠ some '\ufeff')

include fits quiet markless

theorem read_clean (sound : b.isSound = true) (filled : b.hasEntry = true) (clean : b.Clean) :
    read b.text = .ok (.mapping (ofEntries b.entries)) :=
  read_block b fits sound filled quiet markless
    ((text_allowed_iff b fits).2 ⟨clean.remarks, fun s member => (clean.singles s member).1⟩)
    ((block_readable_iff b).2 ⟨clean.keys, fun s member => (clean.singles s member).2⟩)

theorem read_unclean (unclean : ¬ b.Clean) : read b.text = .error .malformed := by
  refine read_malformed fun allowed => block_tokens_unended b fits quiet markless ?_
  obtain ⟨remarks, singles⟩ := (text_allowed_iff b fits).1 allowed
  refine Bool.eq_false_iff.2 fun readable => unclean ?_
  obtain ⟨keys, marks⟩ := (block_readable_iff b).1 readable
  exact ⟨remarks, fun s member => ⟨singles s member, marks s member⟩, keys⟩

end Read
end PipelineMigration.Yaml
