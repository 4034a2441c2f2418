import PipelineMigration.Proofs.Number.Numeral
import PipelineMigration.Proofs.Yaml.Parts
set_option autoImplicit false

/- Blocks drawn as lines: which block a list of lines shows, and what its pieces show. -/
namespace PipelineMigration.Yaml

/-- A text that stands for itself as a plain scalar. -/
structure PlainLeaf (s : Text) : Prop where
  fits : (Written.plain s).Fits
  sound : (Written.plain s).isSound = true

/-- Whether a word stands for itself as a plain scalar. -/
def isLeafWord (s : Text) : Bool :=
  isPlainWord s && !s.head?.any Scan.indicators.contains && s.all isAllowed &&
    (Scalar.value (Tag.ofPlain s) s).isOk

theorem plain_leaf_word {s : Text} (word : isLeafWord s = true) : PlainLeaf s := by
  simp only [isLeafWord, Bool.and_eq_true] at word
  obtain ⟨⟨⟨plain, unmarked⟩, allowed⟩, sound⟩ := word
  refine ⟨⟨.word plain, ?_, allowed⟩, sound⟩
  obtain ⟨x, r, rfl⟩ := List.exists_cons_of_ne_nil (plain_word_ne_nil plain)
  exact ⟨x, r, rfl, by simpa using unmarked⟩

theorem plain_words_sound {words : List Text} (plain : ∀ s ∈ words, isLeafWord s = true) :
    ∀ w ∈ words.map Written.plain, w.Fits ∧ w.isSound = true := by
  intro w member
  obtain ⟨s, among, rfl⟩ := List.mem_map.1 member
  have word := plain_leaf_word (plain s among)
  exact ⟨word.fits, word.sound⟩

section Count

theorem digit_name (c : Char) (digit : Text.isAsciiDigit c = true) : Text.isIdentifierRest c = true := by
  simp [Text.isIdentifierRest, digit]

theorem number_name (n : Nat) : Text.ofNat n ≠ [] ∧ ∀ c ∈ Text.ofNat n, Text.isIdentifierRest c = true := by
  obtain ⟨d, r, digits, each⟩ := Text.number_digits n
  rw [digits]
  exact ⟨List.cons_ne_nil d r, fun c member => digit_name c (each c member)⟩

-- A number with its unit stands for itself.
theorem plain_leaf_count (n : Nat) (unit : String) (strange : unit.toList.any (fun c => !Tag.isNumeral c) = true)
    (words : PlainText (Text.ofNat n ++ unit.toList)) (allowed : unit.toList.all isAllowed = true) :
    PlainLeaf (Text.ofNat n ++ unit.toList) := by
  have printed := name_allowed _ (number_name n).2
  obtain ⟨d, r, digits, each⟩ := Text.number_digits n
  have digit := each d List.mem_cons_self
  have text : Tag.ofPlain (Text.ofNat n ++ unit.toList) = .text := by
    rw [digits]
    exact Tag.of_plain_unit d r unit digit strange
  refine ⟨⟨words, ⟨d, r ++ unit.toList, by rw [digits]; rfl, (identifier_char d (digit_name d digit)).2.1⟩, ?_⟩, ?_⟩
  · rw [List.all_append, printed, allowed]
    rfl
  · rw [Written.isSound, text]
    rfl

theorem plain_leaf_minutes (n : Nat) : PlainLeaf (Text.ofNat n ++ "m".toList) := by
  obtain ⟨nonempty, each⟩ := number_name n
  have chars : ∀ c ∈ Text.ofNat n ++ "m".toList, Text.isIdentifierRest c = true :=
    List.forall_mem_append.2 ⟨each, List.all_eq_true.1 (by decide)⟩
  have whole : Text.ofNat n ++ "m".toList ≠ [] := List.append_ne_nil_of_left_ne_nil nonempty _
  exact plain_leaf_count n "m" (by decide) (.word (name_plain_word _ whole chars)) (by decide)

theorem plain_leaf_days (n : Nat) (unit : String) (known : unit = " day" ∨ unit = " days") :
    PlainLeaf (Text.ofNat n ++ unit.toList) := by
  obtain ⟨nonempty, each⟩ := number_name n
  have number := name_plain_word _ nonempty each
  have day (word : String) (plain : isPlainWord word.toList = true) :
      PlainText (Text.ofNat n ++ ' ' :: word.toList) := .more number (.word plain)
  rcases known with rfl | rfl
  · exact plain_leaf_count n " day" (by decide) (day "day" (by decide)) (by decide)
  · exact plain_leaf_count n " days" (by decide) (day "days" (by decide)) (by decide)

end Count

def bareKey (name : String) : Key := ⟨name.toList, true⟩

/-- Lines show a block whose entries begin at a column. -/
structure Draws (b : Block) (column : Nat) (lines : List Text) : Prop where
  text : (b.rows column).map Row.text = lines
  fits : b.Fits
  sound : b.isSound = true

theorem draws_done (column : Nat) : Draws .done column [] := ⟨rfl, trivial, rfl⟩

theorem Draws.append {a b : Block} {column : Nat} {first second : List Text} (here : Draws a column first)
    (there : Draws b column second) : Draws (a ++ b) column (first ++ second) := by
  refine ⟨?_, (fits_append a b).2 ⟨here.fits, there.fits⟩, ?_⟩
  · rw [Block.rows_append, List.map_append, here.text, there.text]
  · rw [sound_append, here.sound, there.sound]
    rfl

/-- Comments and empty lines. -/
def quietBlock (indent : Nat) (remarks : List Text) : Block := remarks.foldr (.quiet indent) .done

theorem draws_quiet (indent : Nat) (remarks : List Text) (column : Nat) :
    Draws (quietBlock indent remarks) column (remarks.map (List.replicate indent ' ' ++ ·)) := by
  induction remarks with
  | nil => exact draws_done column
  | cons s rest ih =>
    refine ⟨?_, ih.fits, ih.sound⟩
    rw [List.map_cons, ← ih.text]
    rfl

section Pieces

variable {column : Nat} {k : Key} (fits : k.Fits)

include fits

theorem draws_plain {s : Text} (plain : PlainLeaf s) : Draws (.leaf k (.scalar (.plain s)) .done) column
    [List.replicate column ' ' ++ (k.text ++ ':' :: ' ' :: s)] := by
  refine ⟨rfl, ⟨fits, plain.fits, trivial⟩, ?_⟩
  rw [Block.isSound, Leaf.isSound, plain.sound]
  rfl

theorem draws_double (s : Text) : Draws (.leaf k (.scalar (.double s)) .done) column
    [List.replicate column ' ' ++ (k.text ++ ':' :: ' ' :: quote s)] :=
  ⟨rfl, ⟨fits, trivial, trivial⟩, rfl⟩

theorem draws_list (items : List Text) : Draws (.leaf k (.list items) .done) column
    [List.replicate column ' ' ++ (k.text ++ ':' :: ' ' :: quotedList items)] :=
  ⟨rfl, ⟨fits, trivial, trivial⟩, rfl⟩

theorem draws_words {items : List Written} (filled : items ≠ []) (each : ∀ w ∈ items, w.Fits ∧ w.isSound = true) :
    Draws (.words k items .done) column ((List.replicate column ' ' ++ (k.text ++ [':'])) ::
      items.map fun w => List.replicate (column + 2) ' ' ++ ("- ".toList ++ w.text)) := by
  refine ⟨?_, ⟨fits, filled, fun w member => (each w member).1, trivial⟩, ?_⟩
  · simp only [Block.rows, List.append_nil, List.map_cons, List.map_map]
    rfl
  · simpa [Block.isSound] using fun w member => (each w member).2

theorem draws_nested {inner : Block} {lines : List Text} (filled : inner.hasEntry = true)
    (drawn : Draws inner (column + 2) lines) : Draws (.nested k inner .done) column
      ((List.replicate column ' ' ++ (k.text ++ [':'])) :: lines) := by
  refine ⟨?_, ⟨fits, filled, drawn.fits, trivial⟩, ?_⟩
  · simp only [Block.rows, List.append_nil, List.map_cons, drawn.text]
    rfl
  · simpa [Block.isSound] using drawn.sound

def fieldText (f : Key × Leaf) : Text := f.1.text ++ ':' :: ' ' :: f.2.text

/-- The lines of a mapping that is an item. -/
def recordTexts (column : Nat) (r : Record) : List Text :=
  (List.replicate column ' ' ++ ("- ".toList ++ fieldText r.first)) ::
    r.others.map fun f => List.replicate (column + 2) ' ' ++ fieldText f

theorem draws_records {items : List Record} (filled : items ≠ [])
    (each : ∀ r ∈ items, ∀ f ∈ r.first :: r.others, f.1.Fits ∧ f.2.Fits ∧ f.2.isSound = true) :
    Draws (.records k items .done) column ((List.replicate column ' ' ++ (k.text ++ [':'])) ::
      items.flatMap (recordTexts (column + 2))) := by
  refine ⟨?_, ⟨fits, filled, ?_, trivial⟩, ?_⟩
  · have record (r : Record) : ((r.lines (column + 2)).map Row.line).map Row.text = recordTexts (column + 2) r := by
      simp only [Record.lines, recordTexts, List.map_cons, List.map_map, Row.text, Line.text, Line.content]
      congr 1
    simp only [Block.rows, List.append_nil, List.map_cons, List.map_flatMap, record]
    rfl
  · exact fun r member f field => ⟨(each r member f field).1, (each r member f field).2.1⟩
  · simp only [Block.isSound, Bool.and_true, List.all_eq_true]
    exact fun r member f field => (each r member f field).2.2

end Pieces

def plainLeaf (key : String) (s : Text) : Block := .leaf (bareKey key) (.scalar (.plain s)) .done

theorem bare_key_fits (name : String) (identifier : Text.isIdentifier name.toList = true) : (bareKey name).Fits :=
  fun _ => identifier

theorem draws_plain_leaf (key : String) (identifier : Text.isIdentifier key.toList = true) {s : Text}
    (plain : PlainLeaf s) (column : Nat) : Draws (plainLeaf key s) column
      [List.replicate column ' ' ++ (key.toList ++ ':' :: ' ' :: s)] :=
  draws_plain (bare_key_fits key identifier) plain

/-- Entries that each stand on one line. -/
def fieldsBlock (fields : List (Key × Leaf)) : Block := fields.foldr (fun f rest => .leaf f.1 f.2 rest) .done

theorem draws_fields (fields : List (Key × Leaf)) (column : Nat)
    (each : ∀ f ∈ fields, f.1.Fits ∧ f.2.Fits ∧ f.2.isSound = true) :
    Draws (fieldsBlock fields) column (fields.map fun f => List.replicate column ' ' ++ fieldText f) := by
  induction fields with
  | nil => exact draws_done column
  | cons f rest ih =>
    obtain ⟨here, others⟩ := List.forall_mem_cons.1 each
    have drawn := ih others
    refine ⟨?_, ⟨here.1, here.2.1, drawn.fits⟩, ?_⟩
    · rw [List.map_cons, ← drawn.text]
      rfl
    · have sound : (fieldsBlock (f :: rest)).isSound = (f.2.isSound && (fieldsBlock rest).isSound) := rfl
      rw [sound, here.2.2, drawn.sound]
      rfl

end PipelineMigration.Yaml
