import PipelineMigration.Proofs.Yaml.Heads
set_option autoImplicit false

/- Blocks one after another, an empty line between each two. -/
namespace PipelineMigration.Yaml

def joined : List Block → Block
  | [] => .done
  | [b] => b
  | b :: rest => b ++ .quiet 0 [] (joined rest)

theorem joined_cons (b c : Block) (rest : List Block) :
    joined (b :: c :: rest) = b ++ .quiet 0 [] (joined (c :: rest)) := rfl

/-- The lines of pages, an empty one between each two. -/
def joinedLines (pages : List (List Text)) : List Text := [[]].intercalate pages

theorem joined_lines_cons (first second : List Text) (rest : List (List Text)) :
    joinedLines (first :: second :: rest) = first ++ [] :: joinedLines (second :: rest) := by
  simp [joinedLines, List.intercalate]

theorem joined_lines_begin (l : Text) (lines : List Text) (rest : List (List Text)) :
    ∃ more, joinedLines ((l :: lines) :: rest) = l :: more := by
  cases rest with
  | nil => exact ⟨lines, by simp [joinedLines, List.intercalate]⟩
  | cons q rest => exact ⟨_, joined_lines_cons (l :: lines) q rest⟩

theorem draws_joined (pages : List (List Text × Block)) (each : ∀ p ∈ pages, Draws p.2 0 p.1) :
    Draws (joined (pages.map (·.2))) 0 (joinedLines (pages.map (·.1))) := by
  induction pages with
  | nil => exact draws_done 0
  | cons p rest ih =>
    obtain ⟨here, others⟩ := List.forall_mem_cons.1 each
    cases rest with
    | nil =>
      have alone : joinedLines [p.1] = p.1 := by simp [joinedLines, List.intercalate]
      rw [List.map_cons, List.map_nil, List.map_cons, List.map_nil, alone]
      exact here
    | cons q rest =>
      have gap := (draws_quiet 0 [[]] 0).append (ih others)
      simp only [List.map_cons, joined_lines_cons, joined_cons] at gap ⊢
      exact here.append gap

section Parts

variable (blocks : List Block)

theorem joined_parts {α : Type} (held : Block → List α) (done : held .done = [])
    (append : ∀ a b, held (a ++ b) = held a ++ held b) (gap : ∀ b, held (.quiet 0 [] b) = held b) :
    held (joined blocks) = blocks.flatMap held := by
  induction blocks with
  | nil => exact done
  | cons b rest ih =>
    cases rest with
    | nil => exact (List.flatMap_singleton held b).symm
    | cons c rest =>
      rw [joined_cons, append, gap, ih]
      rfl

theorem joined_keys : (joined blocks).keys = blocks.flatMap Block.keys :=
  joined_parts blocks Block.keys rfl keys_append fun _ => rfl

theorem joined_singles : (joined blocks).singles = blocks.flatMap Block.singles :=
  joined_parts blocks Block.singles rfl singles_append fun _ => rfl

theorem joined_entries : (joined blocks).entries = blocks.flatMap Block.entries :=
  joined_parts blocks Block.entries rfl entries_append fun _ => rfl

theorem joined_filled : (joined blocks).hasEntry = blocks.any Block.hasEntry := by
  induction blocks with
  | nil => rfl
  | cons b rest ih =>
    cases rest with
    | nil => exact (Bool.or_false _).symm
    | cons c rest =>
      rw [joined_cons, has_entry_append, Block.hasEntry, ih]
      rfl

theorem joined_remarks (r : Text) (member : r ∈ (joined blocks).remarks) :
    r = [] ∨ ∃ b ∈ blocks, r ∈ b.remarks := by
  induction blocks with
  | nil => cases member
  | cons b rest ih =>
    cases rest with
    | nil => exact .inr ⟨b, List.mem_cons_self, member⟩
    | cons c rest =>
      rw [joined_cons, remarks_append, Block.remarks] at member
      rcases List.mem_append.1 member with here | later
      · exact .inr ⟨b, List.mem_cons_self, here⟩
      · rcases List.mem_cons.1 later with gap | after
        · exact .inl gap
        · rcases ih after with gap | ⟨d, among, said⟩
          · exact .inl gap
          · exact .inr ⟨d, List.mem_cons_of_mem b among, said⟩

end Parts

section Rows

theorem remark_row (b : Block) (column : Nat) (r : Text) (member : r ∈ b.remarks) :
    ∃ n, List.replicate n ' ' ++ r ∈ (b.rows column).map Row.text := by
  induction b generalizing column with
  | done => cases member
  | quiet n s rest ih =>
    rcases List.mem_cons.1 member with rfl | later
    · exact ⟨n, List.mem_cons_self⟩
    · obtain ⟨m, row⟩ := ih column later
      exact ⟨m, List.mem_cons_of_mem _ row⟩
  | leaf k l rest ih =>
    obtain ⟨m, row⟩ := ih column member
    exact ⟨m, List.mem_cons_of_mem _ row⟩
  | words k items rest ih =>
    obtain ⟨m, row⟩ := ih column member
    refine ⟨m, ?_⟩
    rw [Block.rows, List.map_append]
    exact List.mem_append_right _ row
  | records k items rest ih =>
    obtain ⟨m, row⟩ := ih column member
    refine ⟨m, ?_⟩
    rw [Block.rows, List.map_append]
    exact List.mem_append_right _ row
  | nested k inner rest ihInner ih =>
    rw [Block.rows, List.map_append]
    rcases List.mem_append.1 member with inside | later
    · obtain ⟨m, row⟩ := ihInner (column + 2) inside
      exact ⟨m, List.mem_append_left _ (List.mem_cons_of_mem _ row)⟩
    · obtain ⟨m, row⟩ := ih column later
      exact ⟨m, List.mem_append_right _ row⟩

theorem joined_lines_mem (pages : List (List Text)) (l : Text) (member : l ∈ joinedLines pages) :
    l = [] ∨ l ∈ pages.flatten := by
  induction pages with
  | nil => cases member
  | cons p rest ih =>
    cases rest with
    | nil =>
      have own : l ∈ p := by simpa [joinedLines, List.intercalate] using member
      exact .inr (List.mem_flatten.2 ⟨p, List.mem_cons_self, own⟩)
    | cons q rest =>
      rw [joined_lines_cons] at member
      rw [List.flatten_cons, List.mem_append]
      rcases List.mem_append.1 member with here | later
      · exact .inr (.inl here)
      · rcases List.mem_cons.1 later with gap | after
        · exact .inl gap
        · exact (ih after).imp_right .inr

/-- Whether a line is a comment. -/
def isCommentLine (l : Text) : Bool := (l.dropWhile (· == ' ')).head? == some '#'

theorem comment_line (n : Nat) (r : Text) (marked : r.head? = some '#') :
    isCommentLine (List.replicate n ' ' ++ r) = true := by
  have rest : (List.replicate n ' ' ++ r).dropWhile (· == ' ') = r := by
    obtain ⟨s, rfl⟩ : ∃ s, r = '#' :: s := by
      cases r with
      | nil => cases marked
      | cons c s => exact ⟨s, by rw [Option.some.inj marked]⟩
    induction n with
    | zero => rfl
    | succ n ih => exact ih
  rw [isCommentLine, rest, marked]
  rfl

-- When no comment line of a drawing holds a line break, its comments are remarks.
theorem drawn_quiet {b : Block} {lines : List Text} (drawn : Draws b 0 lines)
    (marked : ∀ r ∈ b.remarks, r.head?.all (· == '#') = true)
    (unbroken : ∀ l ∈ lines, isCommentLine l = true → l.all (fun x => !isBreak x) = true) :
    ∀ r ∈ b.remarks, isRemark r = true := by
  intro r member
  have begins := marked r member
  cases first : r.head? with
  | none =>
    rw [List.head?_eq_none_iff.1 first]
    rfl
  | some c =>
    rw [first, Option.all_some, beq_iff_eq] at begins
    obtain ⟨n, row⟩ := remark_row b 0 r member
    rw [drawn.text] at row
    have whole := unbroken _ row (comment_line n r (begins ▸ first))
    rw [List.all_append, Bool.and_eq_true] at whole
    rw [isRemark, first, begins, whole.2]
    rfl

end Rows

section Text

theorem join_lines (lines : List Text) (filled : lines ≠ []) :
    Text.join "\n" lines ++ ['\n'] = lines.flatMap (· ++ ['\n']) := by
  induction lines with
  | nil => exact absurd rfl filled
  | cons l rest ih =>
    cases rest with
    | nil => simp [Text.join, List.intercalate]
    | cons m rest =>
      have split : Text.join "\n" (l :: m :: rest) = l ++ '\n' :: Text.join "\n" (m :: rest) := by
        simp [Text.join, List.intercalate]
      rw [split, List.append_assoc, List.cons_append, ih (List.cons_ne_nil m rest)]
      simp only [List.flatMap_cons, List.append_assoc]
      rfl

-- Pages that are joined as texts are the joined lines, each with its end.
theorem join_pages (pages : List (List Text)) (some : pages ≠ []) (filled : ∀ p ∈ pages, p ≠ []) :
    Text.join "\n\n" (pages.map (Text.join "\n")) ++ ['\n'] = (joinedLines pages).flatMap (· ++ ['\n']) := by
  induction pages with
  | nil => exact absurd rfl some
  | cons p rest ih =>
    obtain ⟨here, others⟩ := List.forall_mem_cons.1 filled
    have own := join_lines p here
    cases rest with
    | nil => simpa [Text.join, List.intercalate, joinedLines] using own
    | cons q rest =>
      have split : Text.join "\n\n" ((p :: q :: rest).map (Text.join "\n")) =
          (Text.join "\n" p ++ ['\n']) ++ '\n' :: Text.join "\n\n" ((q :: rest).map (Text.join "\n")) := by
        simp [Text.join, List.intercalate]
      rw [split, own, List.append_assoc, List.cons_append, ih (List.cons_ne_nil q rest) others, joined_lines_cons,
        List.flatMap_append, List.flatMap_cons]
      rfl

theorem block_text {b : Block} {lines : List Text} (drawn : Draws b 0 lines) :
    b.text = lines.flatMap (· ++ ['\n']) := by
  rw [Block.text, ← drawn.text, List.flatMap_map]

end Text
end PipelineMigration.Yaml
