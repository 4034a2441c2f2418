import PipelineMigration.Proofs.Yaml.Reading
set_option autoImplicit false

/- Mappings laid out in lines. Each collection stands two columns deeper than its key; comments and empty
   lines may stand anywhere between the entries. -/
namespace PipelineMigration.Yaml

/-- A mapping that is an item of a list: its entries, the first after the dash. -/
structure Record where
  first : Key × Leaf
  others : List (Key × Leaf)

/-- The entries of a mapping. -/
inductive Block where
  | done
  /-- A comment or nothing, after an indentation. -/
  | quiet (indent : Nat) (remark : Text) (rest : Block)
  | leaf (key : Key) (value : Leaf) (rest : Block)
  | words (key : Key) (items : List Written) (rest : Block)
  | records (key : Key) (items : List Record) (rest : Block)
  | nested (key : Key) (inner rest : Block)

/-- A line of a text, or a line without tokens. -/
inductive Row where
  | quiet (indent : Nat) (remark : Text)
  | line (l : Line)

namespace Row

def text : Row → Text
  | quiet indent remark => List.replicate indent ' ' ++ remark
  | line l => l.text

def line? : Row → Option Line
  | quiet _ _ => none
  | line l => some l

/-- Rows as the comments before the first line and the lines, each with the comments after it. -/
def gather : List Row → List (Nat × Text) × Paragraphs
  | [] => ([], [])
  | quiet indent remark :: rest => ((indent, remark) :: (gather rest).1, (gather rest).2)
  | line l :: rest => ([], (l, (gather rest).1) :: (gather rest).2)

theorem gather_lines (rows : List Row) : (gather rows).2.lines = rows.filterMap line? := by
  induction rows with
  | nil => rfl
  | cons r rest ih =>
    cases r with
    | quiet indent remark => exact ih
    | line l => exact congrArg (l :: ·) ih

theorem gather_text (rows : List Row) : rows.flatMap (fun r => r.text ++ ['\n']) =
    quietText (gather rows).1 ++ (List.replicate (gather rows).2.column ' ' ++ (gather rows).2.body) := by
  induction rows with
  | nil => rfl
  | cons r rest ih =>
    cases r with
    | quiet indent remark =>
      rw [List.flatMap_cons, ih]
      simp [gather, quietText, text]
    | line l =>
      rw [List.flatMap_cons, ih]
      simp [gather, quietText, text, Line.text, Paragraphs.column, Paragraphs.body]

end Row

namespace Record

def lines (column : Nat) (r : Record) : List Line :=
  .entry column true r.first.1 (some r.first.2) ::
    r.others.map fun (k, l) => .entry (column + 2) false k (some l)

end Record

namespace Block

/-- The rows of a block whose entries begin at a column. -/
def rows (column : Nat) : Block → List Row
  | done => []
  | quiet indent remark rest => .quiet indent remark :: rest.rows column
  | leaf k l rest => .line (.entry column false k (some l)) :: rest.rows column
  | words k items rest => .line (.entry column false k none) ::
      (items.map fun w => .line (.item (column + 2) w)) ++ rest.rows column
  | records k items rest => .line (.entry column false k none) ::
      (items.flatMap fun r => (r.lines (column + 2)).map .line) ++ rest.rows column
  | nested k inner rest => .line (.entry column false k none) :: inner.rows (column + 2) ++ rest.rows column

/-- The lines among the rows. -/
def lines (column : Nat) : Block → List Line
  | done => []
  | quiet _ _ rest => rest.lines column
  | leaf k l rest => .entry column false k (some l) :: rest.lines column
  | words k items rest => .entry column false k none ::
      (items.map fun w => .item (column + 2) w) ++ rest.lines column
  | records k items rest => .entry column false k none ::
      (items.flatMap fun r => r.lines (column + 2)) ++ rest.lines column
  | nested k inner rest => .entry column false k none :: inner.lines (column + 2) ++ rest.lines column

/-- One block after another. -/
def append : Block → Block → Block
  | done, more => more
  | quiet indent remark rest, more => quiet indent remark (rest.append more)
  | leaf k l rest, more => leaf k l (rest.append more)
  | words k items rest, more => words k items (rest.append more)
  | records k items rest, more => records k items (rest.append more)
  | nested k inner rest, more => nested k inner (rest.append more)

instance : Append Block := ⟨append⟩

theorem rows_append (column : Nat) (a b : Block) : (a ++ b).rows column = a.rows column ++ b.rows column := by
  change (a.append b).rows column = _
  induction a with
  | done => rfl
  | quiet indent remark rest ih => simp [append, rows, ih]
  | leaf k l rest ih => simp [append, rows, ih]
  | words k items rest ih => simp [append, rows, ih]
  | records k items rest ih => simp [append, rows, ih]
  | nested k inner rest _ ih => simp [append, rows, ih]

theorem rows_lines (column : Nat) (b : Block) : (b.rows column).filterMap Row.line? = b.lines column := by
  have shown (ls : List Line) : (ls.map Row.line).filterMap Row.line? = ls := by
    rw [List.filterMap_map]
    exact List.filterMap_some
  induction b generalizing column with
  | done => rfl
  | quiet indent remark rest ih => exact ih column
  | leaf k l rest ih => exact congrArg _ (ih column)
  | words k items rest ih =>
    have items := shown (items.map fun w => Line.item (column + 2) w)
    rw [List.map_map] at items
    simp only [rows, lines, List.filterMap_cons, List.filterMap_append, Row.line?, ih, List.cons_append]
    exact congrArg (fun ls => Line.entry column false k none :: (ls ++ rest.lines column)) items
  | records k items rest ih =>
    have items : (items.flatMap fun r => (r.lines (column + 2)).map Row.line).filterMap Row.line? =
        items.flatMap fun r => r.lines (column + 2) := by
      rw [← List.map_flatMap]
      exact shown _
    simp [rows, lines, Row.line?, ih, items]
  | nested k inner rest ihInner ih => simp [rows, lines, Row.line?, ihInner, ih]

/-- Whether there is an entry. -/
def hasEntry : Block → Bool
  | done => false
  | quiet _ _ rest => rest.hasEntry
  | _ => true

/-- Whether keys and scalars are what they look like, and each collection has an item. -/
def Fits : Block → Prop
  | done => True
  | quiet _ _ rest => rest.Fits
  | leaf k l rest => k.Fits ∧ l.Fits ∧ rest.Fits
  | words k items rest => k.Fits ∧ items ≠ [] ∧ (∀ w ∈ items, w.Fits) ∧ rest.Fits
  | records k items rest => k.Fits ∧ items ≠ [] ∧
      (∀ r ∈ items, ∀ e ∈ r.first :: r.others, e.1.Fits ∧ e.2.Fits) ∧ rest.Fits
  | nested k inner rest => k.Fits ∧ inner.hasEntry = true ∧ inner.Fits ∧ rest.Fits

/-- The comments, in the order of their lines. -/
def remarks : Block → List Text
  | done => []
  | quiet _ remark rest => remark :: rest.remarks
  | leaf _ _ rest => rest.remarks
  | words _ _ rest => rest.remarks
  | records _ _ rest => rest.remarks
  | nested _ inner rest => inner.remarks ++ rest.remarks

/-- Whether nothing in the block keeps it from being read. -/
def isReadable : Block → Bool
  | done => true
  | quiet _ _ rest => rest.isReadable
  | leaf k l rest => k.isShort && l.isUnmarked && rest.isReadable
  | words k items rest => k.isShort && items.all (·.isUnmarked) && rest.isReadable
  | records k items rest => k.isShort &&
      items.all (fun r => (r.first :: r.others).all fun e => e.1.isShort && e.2.isUnmarked) && rest.isReadable
  | nested k inner rest => k.isShort && inner.isReadable && rest.isReadable

def entryTokens (k : Key) (value : List Token) : List Token := .key :: k.token :: .value :: value

noncomputable def recordTokens (r : Record) : List Token :=
  .blockEntry :: .blockMappingStart ::
    ((r.first :: r.others).flatMap fun (k, l) => entryTokens k l.tokens) ++ [.blockEnd]

/-- The tokens of the entries. -/
noncomputable def tokens : Block → List Token
  | done => []
  | quiet _ _ rest => rest.tokens
  | leaf k l rest => entryTokens k l.tokens ++ rest.tokens
  | words k items rest => entryTokens k (.blockSequenceStart ::
      (items.flatMap fun w => [.blockEntry, w.token]) ++ [.blockEnd]) ++ rest.tokens
  | records k items rest => entryTokens k (.blockSequenceStart ::
      items.flatMap recordTokens ++ [.blockEnd]) ++ rest.tokens
  | nested k inner rest => entryTokens k (.blockMappingStart :: inner.tokens ++ [.blockEnd]) ++ rest.tokens

end Block

section Spell

variable {column : Nat} {stack : Stack} {more : List Line}

/-- No line is deeper than a column before one is that is not. -/
def Shallow (column : Nat) (more : List Line) : Prop := ∀ m ∈ more.head?, m.column ≤ column

theorem shallow_cons (l : Line) (more : List Line) (here : l.column ≤ column) : Shallow column (l :: more) := by
  rintro m ⟨⟩
  exact here

theorem spell_entry (k : Key) (leaf : Option Leaf) : spell (column :: stack) (.entry column false k leaf :: more) =
    Block.entryTokens k (Line.leafTokens leaf) ++ spell (column :: stack) more := by
  have level : ¬ Stack.top (column :: stack) < column := by simp [Stack.top]
  simp [spell, Line.column, Line.tokens, Line.after, Stack.ends, Stack.closeTo, Stack.opening, Stack.enter, level,
    Block.entryTokens]

theorem spell_item (w : Written) : spell (column :: stack) (.item column w :: more) =
    .blockEntry :: w.token :: spell (column :: stack) more := by
  have level : ¬ Stack.top (column :: stack) < column := by simp [Stack.top]
  simp [spell, Line.column, Line.tokens, Line.after, Stack.ends, Stack.closeTo, Stack.opening, Stack.enter, level]

theorem spell_dashed (k : Key) (leaf : Option Leaf) : spell (column :: stack) (.entry column true k leaf :: more) =
    .blockEntry :: .blockMappingStart :: Block.entryTokens k (Line.leafTokens leaf) ++
      spell ((column + 2) :: column :: stack) more := by
  have level : ¬ Stack.top (column :: stack) < column := by simp [Stack.top]
  simp [spell, Line.column, Line.tokens, Line.after, Stack.ends, Stack.closeTo, Stack.opening, Stack.enter, level,
    Block.entryTokens]

theorem close_to_below (deeper : stack.top < column) : stack.closeTo column = stack ∧ stack.ends column = [] := by
  cases stack with
  | nil => exact ⟨rfl, rfl⟩
  | cons d rest =>
    have above : ¬ column < d := by
      simp only [Stack.top] at deeper
      omega
    simp [Stack.closeTo, Stack.ends, above]

-- The first entry at a column opens its mapping.
theorem spell_opens_mapping (k : Key) (leaf : Option Leaf) (deeper : stack.top < column) :
    spell stack (.entry column false k leaf :: more) =
      .blockMappingStart :: spell (column :: stack) (.entry column false k leaf :: more) := by
  obtain ⟨kept, none⟩ := close_to_below deeper
  rw [spell_entry]
  simp [spell, Line.column, Line.tokens, Line.after, kept, none, Stack.opening, Stack.enter, deeper,
    Block.entryTokens]

theorem spell_opens_sequence (w : Written) (deeper : stack.top < column) :
    spell stack (.item column w :: more) =
      .blockSequenceStart :: spell (column :: stack) (.item column w :: more) := by
  obtain ⟨kept, none⟩ := close_to_below deeper
  rw [spell_item]
  simp [spell, Line.column, Line.tokens, Line.after, kept, none, Stack.opening, Stack.enter, deeper]

theorem spell_opens_records (k : Key) (leaf : Option Leaf) (deeper : stack.top < column) :
    spell stack (.entry column true k leaf :: more) =
      .blockSequenceStart :: spell (column :: stack) (.entry column true k leaf :: more) := by
  obtain ⟨kept, none⟩ := close_to_below deeper
  rw [spell_dashed]
  simp [spell, Line.column, Line.tokens, Line.after, kept, none, Stack.opening, Stack.enter, deeper,
    Block.entryTokens]

-- What follows less deep ends a collection.
theorem spell_closes (shallow : Shallow column more) (outer : Nat) (inside : column < outer) :
    spell (outer :: stack) more = .blockEnd :: spell stack more := by
  cases more with
  | nil => rfl
  | cons m rest =>
    have left : m.column < outer := Nat.lt_of_le_of_lt (shallow m rfl) inside
    simp [spell, Stack.ends, Stack.closeTo, left]

theorem spell_items (items : List Written) :
    spell (column :: stack) ((items.map fun w => .item column w) ++ more) =
      (items.flatMap fun w => [.blockEntry, w.token]) ++ spell (column :: stack) more := by
  induction items with
  | nil => rfl
  | cons w rest ih =>
    rw [List.map_cons, List.cons_append, spell_item, ih]
    rfl

theorem spell_fields (fields : List (Key × Leaf)) :
    spell (column :: stack) ((fields.map fun (k, l) => .entry column false k (some l)) ++ more) =
      (fields.flatMap fun (k, l) => Block.entryTokens k l.tokens) ++ spell (column :: stack) more := by
  induction fields with
  | nil => rfl
  | cons f rest ih =>
    rw [List.map_cons, List.cons_append, spell_entry, ih, List.flatMap_cons, List.append_assoc]
    rfl

theorem spell_records (items : List Record) (shallow : Shallow column more) :
    spell (column :: stack) ((items.flatMap fun r => r.lines column) ++ more) =
      items.flatMap Block.recordTokens ++ spell (column :: stack) more := by
  induction items with
  | nil => rfl
  | cons r rest ih =>
    have further : Shallow column ((rest.flatMap fun r => r.lines column) ++ more) := by
      cases rest with
      | nil => exact shallow
      | cons _ _ => exact shallow_cons _ _ (Nat.le_refl _)
    rw [List.flatMap_cons, Record.lines, List.cons_append, List.cons_append, List.append_assoc, spell_dashed,
      spell_fields, spell_closes further _ (by omega), ih]
    simp [Block.recordTokens, Line.leafTokens]

theorem block_shallow (b : Block) (shallow : Shallow column more) : Shallow column (b.lines column ++ more) := by
  induction b with
  | done => exact shallow
  | quiet _ _ rest ih => exact ih
  | leaf k l rest => exact shallow_cons _ _ (Nat.le_refl _)
  | words k items rest => exact shallow_cons _ _ (Nat.le_refl _)
  | records k items rest => exact shallow_cons _ _ (Nat.le_refl _)
  | nested k inner rest => exact shallow_cons _ _ (Nat.le_refl _)

theorem block_first (b : Block) (column : Nat) (some : b.hasEntry = true) :
    ∃ k leaf rest, b.lines column = .entry column false k leaf :: rest := by
  induction b with
  | done => cases some
  | quiet _ _ rest ih => exact ih some
  | leaf k l rest => exact ⟨_, _, _, rfl⟩
  | words k items rest => exact ⟨_, _, _, rfl⟩
  | records k items rest => exact ⟨_, _, _, rfl⟩
  | nested k inner rest => exact ⟨_, _, _, rfl⟩

section Collection

variable {outer : Nat} (deeper : stack.top < outer) (inside : column < outer) (shallow : Shallow column more)

include deeper inside shallow

theorem spell_word_list (items : List Written) (filled : items ≠ []) :
    spell stack ((items.map fun w => .item outer w) ++ more) =
      .blockSequenceStart :: (items.flatMap fun w => [.blockEntry, w.token]) ++ .blockEnd :: spell stack more := by
  obtain ⟨w, rest, rfl⟩ := List.exists_cons_of_ne_nil filled
  have opened := @spell_opens_sequence outer stack ((rest.map fun w => .item outer w) ++ more) w deeper
  have items := @spell_items outer stack more (w :: rest)
  rw [List.map_cons, List.cons_append] at items ⊢
  rw [opened, items, spell_closes shallow _ inside]
  rfl

theorem spell_record_list (items : List Record) (filled : items ≠ []) :
    spell stack ((items.flatMap fun r => r.lines outer) ++ more) =
      .blockSequenceStart :: items.flatMap Block.recordTokens ++ .blockEnd :: spell stack more := by
  obtain ⟨r, rest, rfl⟩ := List.exists_cons_of_ne_nil filled
  have within : Shallow outer more := fun m first => Nat.le_trans (shallow m first) (Nat.le_of_lt inside)
  have items := @spell_records outer stack more (r :: rest) within
  rw [List.flatMap_cons, Record.lines, List.cons_append, List.cons_append] at items ⊢
  rw [spell_opens_records _ _ deeper, items, spell_closes shallow _ inside]
  rfl

end Collection

-- The lines of a block spell its tokens.
theorem spell_block (b : Block) (fits : b.Fits) (shallow : Shallow column more) :
    spell (column :: stack) (b.lines column ++ more) = b.tokens ++ spell (column :: stack) more := by
  induction b generalizing column stack more with
  | done => rfl
  | quiet _ _ rest ih => exact ih fits shallow
  | leaf k l rest ih =>
    rw [Block.lines, List.cons_append, spell_entry, ih fits.2.2 shallow, Block.tokens, List.append_assoc]
    rfl
  | words k items rest ih =>
    have deeper : Stack.top (column :: stack) < (column + 2 : Nat) := by
      simp only [Stack.top]
      omega
    rw [Block.lines, List.cons_append, List.cons_append, List.append_assoc, spell_entry, spell_word_list deeper (by omega)
      (block_shallow rest shallow) items fits.2.1, ih fits.2.2.2 shallow]
    simp [Block.tokens, Block.entryTokens, Line.leafTokens]
  | records k items rest ih =>
    have deeper : Stack.top (column :: stack) < (column + 2 : Nat) := by
      simp only [Stack.top]
      omega
    rw [Block.lines, List.cons_append, List.cons_append, List.append_assoc, spell_entry, spell_record_list deeper (by omega)
      (block_shallow rest shallow) items fits.2.1, ih fits.2.2.2 shallow]
    simp [Block.tokens, Block.entryTokens, Line.leafTokens]
  | nested k inner rest ihInner ih =>
    have deeper : Stack.top (column :: stack) < (column + 2 : Nat) := by
      simp only [Stack.top]
      omega
    obtain ⟨-, filled, innerFits, restFits⟩ := fits
    have level := block_shallow rest shallow
    have within : Shallow (column + 2) (rest.lines column ++ more) := fun m first =>
      Nat.le_trans (level m first) (by omega)
    have spelled := @ihInner (column + 2) (column :: stack) _ innerFits within
    obtain ⟨k', leaf, lines, same⟩ := block_first inner (column + 2) filled
    rw [same, List.cons_append] at spelled
    rw [Block.lines, List.cons_append, List.cons_append, List.append_assoc, spell_entry, same, List.cons_append,
      spell_opens_mapping k' leaf deeper, spelled, spell_closes level _ (by omega), ih restFits shallow]
    simp [Block.tokens, Block.entryTokens, Line.leafTokens]

theorem flows_cons (l : Line) (more : List Line) (here : l.endsPlain = true → Shallow l.inner more)
    (flows : Flows more) : Flows (l :: more) := by
  cases more with
  | nil => trivial
  | cons m rest => exact ⟨fun plain => here plain m rfl, flows⟩

theorem flows_items (items : List Written) (shallow : Shallow column more) (flows : Flows more) :
    Flows ((items.map fun w => .item column w) ++ more) := by
  induction items with
  | nil => exact flows
  | cons w rest ih =>
    refine flows_cons _ _ (fun _ => ?_) ih
    cases rest with
    | nil => exact shallow
    | cons v rest => exact shallow_cons _ _ (Nat.le_refl _)

theorem flows_fields (fields : List (Key × Leaf)) (shallow : Shallow column more) (flows : Flows more) :
    Flows ((fields.map fun (k, l) => .entry column false k (some l)) ++ more) := by
  induction fields with
  | nil => exact flows
  | cons f rest ih =>
    refine flows_cons _ _ (fun _ => ?_) ih
    cases rest with
    | nil => exact shallow
    | cons g rest => exact shallow_cons _ _ (Nat.le_refl _)

theorem flows_records (items : List Record) (shallow : Shallow column more) (flows : Flows more) :
    Flows ((items.flatMap fun r => r.lines column) ++ more) := by
  induction items with
  | nil => exact flows
  | cons r rest ih =>
    have level : Shallow (column + 2) ((rest.flatMap fun r => r.lines column) ++ more) := by
      cases rest with
      | nil => exact fun m first => Nat.le_trans (shallow m first) (by omega)
      | cons s rest => exact shallow_cons _ _ (by simp only [Line.column]; omega)
    rw [List.flatMap_cons, List.append_assoc, Record.lines, List.cons_append]
    refine flows_cons _ _ (fun _ => ?_) (flows_fields r.others level ih)
    cases others : r.others with
    | nil => exact level
    | cons f fields => exact shallow_cons _ _ (Nat.le_refl _)

-- In a block no plain scalar is followed by a deeper line.
theorem block_flows (b : Block) (shallow : Shallow column more) (flows : Flows more) :
    Flows (b.lines column ++ more) := by
  have within {more : List Line} (level : Shallow column more) : Shallow (column + 2) more :=
    fun m first => Nat.le_trans (level m first) (by omega)
  induction b generalizing column more with
  | done => exact flows
  | quiet _ _ rest ih => exact ih shallow flows within
  | leaf k l rest ih => exact flows_cons _ _ (fun _ => block_shallow rest shallow) (ih shallow flows within)
  | words k items rest ih =>
    rw [Block.lines, List.cons_append, List.cons_append, List.append_assoc]
    exact flows_cons _ _ (fun plain => nomatch plain)
      (flows_items items (within (block_shallow rest shallow)) (ih shallow flows within))
  | records k items rest ih =>
    rw [Block.lines, List.cons_append, List.cons_append, List.append_assoc]
    exact flows_cons _ _ (fun plain => nomatch plain)
      (flows_records items (within (block_shallow rest shallow)) (ih shallow flows within))
  | nested k inner rest ihInner ih =>
    rw [Block.lines, List.cons_append, List.cons_append, List.append_assoc]
    refine flows_cons _ _ (fun plain => nomatch plain)
      (ihInner (within (block_shallow rest shallow)) (ih shallow flows within) ?_)
    exact fun level m first => Nat.le_trans (level m first) (by omega)

end Spell

section Rows

variable (b : Block) (fits : b.Fits) (column : Nat)

theorem block_lines_readable : (b.lines column).all (·.isReadable) = b.isReadable := by
  induction b generalizing column with
  | done => rfl
  | quiet _ _ rest ih => exact ih column
  | leaf k l rest ih => simp [Block.lines, Block.isReadable, ih]
  | words k items rest ih =>
    simp [Block.lines, Block.isReadable, ih, Function.comp_def, Bool.and_assoc]
  | records k items rest ih =>
    simp [Block.lines, Block.isReadable, ih, Function.comp_def, Bool.and_assoc, Record.lines]
  | nested k inner rest ihInner ih =>
    simp [Block.lines, Block.isReadable, ihInner, ih, Bool.and_assoc]

include fits

theorem block_lines_fit : ∀ l ∈ b.lines column, l.Fits := by
  induction b generalizing column with
  | done => exact fun _ none => nomatch none
  | quiet _ _ rest ih => exact ih fits column
  | leaf k l rest ih =>
    refine List.forall_mem_cons.2 ⟨⟨fits.1, ?_⟩, ih fits.2.2 column⟩
    rintro _ ⟨⟩
    exact fits.2.1
  | words k items rest ih =>
    refine List.forall_mem_cons.2 ⟨⟨fits.1, fun _ none => nomatch none⟩, fun l member => ?_⟩
    rcases List.mem_append.1 member with item | later
    · obtain ⟨w, among, rfl⟩ := List.mem_map.1 item
      exact fits.2.2.1 w among
    · exact ih fits.2.2.2 column l later
  | records k items rest ih =>
    refine List.forall_mem_cons.2 ⟨⟨fits.1, fun _ none => nomatch none⟩, fun l member => ?_⟩
    rcases List.mem_append.1 member with item | later
    · obtain ⟨r, among, here⟩ := List.mem_flatMap.1 item
      have each := fits.2.2.1 r among
      rcases List.mem_cons.1 here with rfl | other
      · refine ⟨(each r.first List.mem_cons_self).1, ?_⟩
        rintro _ ⟨⟩
        exact (each r.first List.mem_cons_self).2
      · obtain ⟨f, field, rfl⟩ := List.mem_map.1 other
        refine ⟨(each f (List.mem_cons_of_mem _ field)).1, ?_⟩
        rintro _ ⟨⟩
        exact (each f (List.mem_cons_of_mem _ field)).2
    · exact ih fits.2.2.2 column l later
  | nested k inner rest ihInner ih =>
    refine List.forall_mem_cons.2 ⟨⟨fits.1, fun _ none => nomatch none⟩, fun l member => ?_⟩
    rcases List.mem_append.1 member with item | later
    · exact ihInner fits.2.2.1 (column + 2) l item
    · exact ih fits.2.2.2 column l later

omit fits in
theorem block_remarks (indent : Nat) (remark : Text) (among : .quiet indent remark ∈ b.rows column) :
    remark ∈ b.remarks := by
  induction b generalizing column with
  | done => cases among
  | quiet n s rest ih =>
    rcases List.mem_cons.1 among with same | later
    · obtain ⟨-, rfl⟩ := Row.quiet.inj same
      exact List.mem_cons_self
    · exact List.mem_cons_of_mem _ (ih column later)
  | leaf k l rest ih =>
    rcases List.mem_cons.1 among with same | later
    · cases same
    · exact ih column later
  | words k items rest ih =>
    have later : .quiet indent remark ∈ rest.rows column := by
      simpa [Block.rows] using among
    exact ih column later
  | records k items rest ih =>
    have later : .quiet indent remark ∈ rest.rows column := by
      simpa [Block.rows] using among
    exact ih column later
  | nested k inner rest ihInner ih =>
    rcases List.mem_cons.1 among with same | later
    · cases same
    · rcases List.mem_append.1 later with inside | after
      · exact List.mem_append.2 (.inl (ihInner (column + 2) inside))
      · exact List.mem_append.2 (.inr (ih column after))

end Rows

theorem gather_remarks (rows : List Row)
    (remarks : ∀ indent remark, .quiet indent remark ∈ rows → isRemark remark = true) :
    (∀ q ∈ (Row.gather rows).1, isRemark q.2 = true) ∧
      ∀ p ∈ (Row.gather rows).2, ∀ q ∈ p.2, isRemark q.2 = true := by
  induction rows with
  | nil => exact ⟨(fun _ none => nomatch none), (fun _ none => nomatch none)⟩
  | cons r rest ih =>
    obtain ⟨before, after⟩ := ih fun indent remark among => remarks indent remark (List.mem_cons_of_mem _ among)
    cases r with
    | quiet indent remark =>
      exact ⟨List.forall_mem_cons.2 ⟨remarks indent remark List.mem_cons_self, before⟩, after⟩
    | line l => exact ⟨(fun _ none => nomatch none), List.forall_mem_cons.2 ⟨before, after⟩⟩

/-- The text of a block that begins in the first column. -/
def Block.text (b : Block) : Text := (b.rows 0).flatMap fun r => r.text ++ ['\n']

section Text

variable (b : Block) (fits : b.Fits) (quiet : ∀ r ∈ b.remarks, isRemark r = true)
  (markless : b.text.head? ≠ some '\ufeff')

include fits quiet markless

-- The tokens of a block's text, when nothing in it keeps it from being read.
theorem block_tokens (filled : b.hasEntry = true) (readable : b.isReadable = true) :
    tokens b.text = .blockMappingStart :: b.tokens ++ [.blockEnd, .streamEnd] := by
  obtain ⟨before, after⟩ := gather_remarks (b.rows 0) fun indent remark among =>
    quiet remark (block_remarks b 0 indent remark among)
  have lines := (Row.gather_lines (b.rows 0)).trans (Block.rows_lines 0 b)
  have flows := @block_flows 0 [] b (fun _ none => nomatch none) trivial
  have spelled := @spell_block 0 [] [] b fits (fun _ none => nomatch none)
  rw [List.append_nil] at flows spelled
  have shown := tokens_of_lines (by rw [lines]; exact block_lines_fit b fits 0) after _ before
    (Row.gather_text (b.rows 0)) markless (by rw [lines]; exact flows)
    (by rw [lines, block_lines_readable]; exact readable)
  obtain ⟨k, leaf, rest, first⟩ := block_first b 0 filled
  refine shown.trans ?_
  rw [lines, first, spell_opens_mapping k leaf (by decide), ← first, spelled]
  simp [spell]

theorem block_tokens_unended (unread : b.isReadable = false) : Unended (tokens b.text) := by
  obtain ⟨before, after⟩ := gather_remarks (b.rows 0) fun indent remark among =>
    quiet remark (block_remarks b 0 indent remark among)
  have lines := (Row.gather_lines (b.rows 0)).trans (Block.rows_lines 0 b)
  have flows := @block_flows 0 [] b (fun _ none => nomatch none) trivial
  rw [List.append_nil] at flows
  exact tokens_unended (by rw [lines]; exact block_lines_fit b fits 0) after _ before
    (Row.gather_text (b.rows 0)) markless (by rw [lines]; exact flows)
    (by rw [lines, block_lines_readable]; exact unread)

end Text
end PipelineMigration.Yaml
