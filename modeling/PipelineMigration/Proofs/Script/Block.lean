import PipelineMigration.Proofs.Pattern.Taken
import PipelineMigration.Script.Bracket
set_option autoImplicit false

/- Where the body of a block stands in the script, and what follows it. Brackets nest: a bracket that opens inside what
   another one encloses closes no later than that, so of two blocks that share a place one lies in the other. -/
namespace PipelineMigration.Script

open Pattern

theorem code_from_at {s : Text} {skip i : Nat} {c : Char} (found : (codeFrom skip s)[i]? = some (some c)) :
    s[i]? = some c := by
  induction s generalizing skip i with
  | nil => cases skip <;> cases found
  | cons d r ih => cases skip with
    | zero =>
      rw [codeFrom] at found
      split at found
      · cases i with
        | zero => cases found
        | succ i => exact ih found
      · cases i with
        | zero => exact Option.some.inj found
        | succ i => exact ih found
    | succ skip => cases i with
      | zero => cases found
      | succ i => exact ih found

theorem closer_at {opener closer : Char} {index depth n : Nat} {s : List (Option Char)}
    (found : closerIndex opener closer index depth s = some n) : ∃ i, n = index + i ∧ s[i]? = some (some closer) := by
  induction s generalizing index depth with
  | nil => cases found
  | cons d r ih =>
    have later {depth : Nat} (found : closerIndex opener closer (index + 1) depth r = some n) :
        ∃ i, n = index + i ∧ (d :: r)[i]? = some (some closer) := by
      obtain ⟨i, place, held⟩ := ih found
      exact ⟨i + 1, by omega, held⟩
    cases d with
    | none => exact later found
    | some c =>
      rw [closerIndex] at found
      split at found
      · exact later found
      · split at found
        · rename_i closes
          split at found
          · exact ⟨0, (Option.some.inj found).symm, by rw [← beq_iff_eq.1 closes]; rfl⟩
          · exact later found
        · exact later found

-- What a bracket encloses goes up to its closer, or to the end.
theorem enclosed_ends (opener closer : Char) (s : Text) :
    s = enclosed opener closer s ∨ ∃ rest, s = enclosed opener closer s ++ closer :: rest := by
  unfold enclosed
  cases found : enclosedLength opener closer s with
  | none => exact .inl rfl
  | some n =>
    obtain ⟨i, place, held⟩ := closer_at found
    obtain rfl : n = i := place.trans (Nat.zero_add i)
    obtain ⟨short, here⟩ := List.getElem?_eq_some_iff.1 (code_from_at held)
    refine .inr ⟨s.drop (n + 1), ?_⟩
    rw [← here, ← List.drop_eq_getElem_cons short, List.take_append_drop]

/-- A block begins behind a brace, and has what the brace encloses. -/
def Block.Placed (s : Text) (b : Block) : Prop :=
  ∃ u v, s = u ++ '\x7b' :: v ∧ b = ⟨u.length + 1, enclosed '\x7b' '\x7d' v⟩

theorem listed_placed {keyword s : Text} {b : Block} (listed : b ∈ blocks keyword s) : b.Placed s := by
  obtain ⟨m, found, rfl⟩ := List.mem_map.1 listed
  obtain ⟨front, taken, rest, k, found⟩ := all_matches_found found
  have shape : blockStart keyword = notAfter isWordOrDot ++ exactly keyword ++ blanks ++ exactly ['\x7b'] := rfl
  have way := found.way
  rw [shape] at way
  obtain ⟨head, -, rfl⟩ := then_exactly.1 way
  refine ⟨front ++ head, rest, ?_, ?_⟩
  · rw [found.whole]
    simp only [List.append_assoc, List.singleton_append]
  · rw [found.stop, found.after]
    simp only [List.length_append, List.length_singleton, Nat.add_assoc]

-- The body of a block stands in the script, behind its brace.
theorem block_placed {keyword s : Text} {b : Block} (listed : b ∈ blocks keyword s) :
    ∃ pre w, s = pre ++ ['\x7b'] ++ (b.body ++ w) ∧ b.offset = (pre ++ ['\x7b']).length ∧
      (w = [] ∨ ∃ rest, w = '\x7d' :: rest) := by
  obtain ⟨pre, rest, rfl, rfl⟩ := listed_placed listed
  obtain ⟨w, ends, behind⟩ : ∃ w, rest = enclosed '\x7b' '\x7d' rest ++ w ∧ (w = [] ∨ ∃ rest, w = '\x7d' :: rest) := by
    rcases enclosed_ends '\x7b' '\x7d' rest with same | ⟨w, same⟩
    · exact ⟨[], by rw [List.append_nil]; exact same, .inl rfl⟩
    · exact ⟨_, same, .inr ⟨w, rfl⟩⟩
  refine ⟨pre, w, ?_, ?_, behind⟩
  · dsimp only
    rw [← ends, List.append_assoc, List.singleton_append]
  · rw [List.length_append, List.length_singleton]

section Code

variable {s : Text} {skip k : Nat} {c : Char}

theorem code_from_behind (found : (codeFrom skip s)[k]? = some (some c)) :
    codeFrom 0 (s.drop (k + 1)) = (codeFrom skip s).drop (k + 1) := by
  induction s generalizing skip k with
  | nil => cases skip <;> cases found
  | cons d r ih => cases skip with
    | zero =>
      rw [codeFrom] at found ⊢
      split at found
      · rename_i quote
        rw [if_pos quote]
        cases k with
        | zero => cases found
        | succ k => exact ih found
      · rename_i plain
        rw [if_neg plain]
        cases k with
        | zero => rfl
        | succ k => exact ih found
    | succ skip => cases k with
      | zero => cases found
      | succ k => exact ih found

theorem code_behind (found : (code s)[k]? = some (some c)) : code (s.drop (k + 1)) = (code s).drop (k + 1) :=
  code_from_behind found

end Code

section Closer

variable {opener closer : Char} {index depth n : Nat} {s : List (Option Char)}

theorem closer_shift (shift : Nat) : closerIndex opener closer (shift + index) depth s =
    (closerIndex opener closer index depth s).map (shift + ·) := by
  induction s generalizing index depth with
  | nil => rfl
  | cons d r ih => cases d with
    | none => exact @ih (index + 1) depth
    | some c =>
      simp only [closerIndex]
      split
      · exact @ih (index + 1) (depth + 1)
      · split
        · split
          · rfl
          · exact @ih (index + 1) (depth - 1)
        · exact @ih (index + 1) depth

-- The more brackets are open, the later the last of them closes.
theorem closer_later {deeper : Nat} (more : depth ≤ deeper)
    (found : closerIndex opener closer index deeper s = some n) :
    ∃ k, k ≤ n ∧ closerIndex opener closer index depth s = some k := by
  induction s generalizing index depth deeper with
  | nil => cases found
  | cons d r ih => cases d with
    | none => exact ih more found
    | some c =>
      rw [closerIndex] at found ⊢
      split at found
      · rename_i opens
        rw [if_pos opens]
        exact ih (Nat.succ_le_succ more) found
      · rename_i other
        rw [if_neg other]
        split at found
        · rename_i closes
          rw [if_pos closes]
          by_cases last : depth ≤ 1
          -- The last one closes here; the others here or later.
          · rw [if_pos last]
            refine ⟨index, ?_, rfl⟩
            split at found
            · exact Nat.le_of_eq (Option.some.inj found)
            · obtain ⟨i, place, -⟩ := closer_at found
              omega
          · rw [if_neg last]
            rw [if_neg (by omega)] at found
            exact ih (by omega) found
        · rename_i plain
          rw [if_neg plain]
          exact ih more found

-- A bracket that opens before the last one closes is closed by then.
theorem closer_inside {front back : List (Option Char)} (positive : 0 < depth)
    (found : closerIndex opener closer index depth (front ++ some opener :: back) = some n)
    (behind : index + front.length ≤ n) :
    ∃ k, k ≤ n ∧ closerIndex opener closer (index + front.length + 1) 1 back = some k := by
  induction front generalizing index depth with
  | nil =>
    rw [List.nil_append, closerIndex, if_pos (beq_self_eq_true opener)] at found
    exact closer_later (Nat.succ_le_succ (Nat.zero_le depth)) found
  | cons d front ih =>
    rw [List.length_cons] at behind ⊢
    have further {depth : Nat} (positive : 0 < depth)
        (found : closerIndex opener closer (index + 1) depth (front ++ some opener :: back) = some n) :
        ∃ k, k ≤ n ∧ closerIndex opener closer (index + (front.length + 1) + 1) 1 back = some k := by
      have step : index + 1 + front.length = index + (front.length + 1) := by omega
      have inner := ih positive found (by omega)
      rwa [step] at inner
    rw [List.cons_append] at found
    cases d with
    | none => exact further positive found
    | some c =>
      rw [closerIndex] at found
      split at found
      · exact further (Nat.succ_pos _) found
      · split at found
        · split at found
          · obtain rfl := Option.some.inj found
            omega
          · exact further (by omega) found
        · exact further positive found

end Closer

section Enclosed

variable {opener closer : Char} {s u v : Text}

theorem enclosed_length_lt {n : Nat} (found : enclosedLength opener closer s = some n) : n < s.length := by
  obtain ⟨i, place, held⟩ := closer_at found
  obtain rfl : n = i := place.trans (Nat.zero_add i)
  exact (List.getElem?_eq_some_iff.1 (code_from_at held)).1

theorem enclosed_length_eq : (enclosed opener closer s).length = (enclosedLength opener closer s).getD s.length := by
  unfold enclosed
  cases found : enclosedLength opener closer s with
  | none => rfl
  | some n => exact (List.length_take_of_le (Nat.le_of_lt (enclosed_length_lt found)))

theorem enclosed_length_le : (enclosed opener closer s).length ≤ s.length := by
  unfold enclosed
  split
  · exact List.length_take_le' _ s
  · exact Nat.le_refl _

-- What a bracket encloses that opens inside a body lies in the body.
theorem enclosed_nests (split : s = u ++ opener :: v) (bare : (code s)[u.length]? = some (some opener))
    (inside : u.length < (enclosed opener closer s).length) :
    u.length + 1 + (enclosed opener closer v).length ≤ (enclosed opener closer s).length := by
  have rest : s.drop (u.length + 1) = v := by
    rw [split]
    simp
  -- The bracket is no part of a literal, so the literals behind it are the same from there on.
  have behind : code v = (code s).drop (u.length + 1) := by rw [← code_behind bare, rest]
  have whole : code s = (code s).take u.length ++ some opener :: code v := by
    obtain ⟨bound, here⟩ := List.getElem?_eq_some_iff.1 bare
    rw [behind, ← here, ← List.drop_eq_getElem_cons bound, List.take_append_drop]
  have long : s.length = u.length + 1 + v.length := by
    rw [split, List.length_append, List.length_cons]
    omega
  have front : ((code s).take u.length).length = u.length := by
    rw [List.length_take_of_le]
    rw [length_code]
    omega
  have outer := @enclosed_length_eq opener closer s
  cases found : enclosedLength opener closer s with
  | none =>
    have bound := @enclosed_length_le opener closer v
    rw [found, Option.getD_none] at outer
    omega
  | some n =>
    rw [found, Option.getD_some] at outer
    rw [enclosedLength, whole] at found
    obtain ⟨k, early, closed⟩ := closer_inside Nat.one_pos found (by omega)
    have inner : enclosedLength opener closer v = some (k - (u.length + 1)) ∧ u.length + 1 ≤ k := by
      have shifted := @closer_shift opener closer 0 1 (code v) (u.length + 1)
      rw [front, Nat.zero_add] at closed
      rw [Nat.add_zero, closed] at shifted
      obtain ⟨i, held, place⟩ := Option.map_eq_some_iff.1 shifted.symm
      exact ⟨by rw [enclosedLength, held]; congr 1; omega, by omega⟩
    have body := @enclosed_length_eq opener closer v
    rw [inner.1, Option.getD_some] at body
    omega

end Enclosed

section Blocks

/-- Where the body of a block ends. -/
def Block.stop (b : Block) : Nat := b.offset + b.body.length

/-- The body of a block is a part of that of another one. -/
def Block.Within (b w : Block) : Prop := w.offset ≤ b.offset ∧ b.stop ≤ w.stop

instance (b w : Block) : Decidable (b.Within w) := inferInstanceAs (Decidable (_ ∧ _))

/-- The brace that opens a block stands outside literals. -/
def Block.Bare (s : Text) (b : Block) : Prop := (code s)[b.offset - 1]? = some (some '\x7b')

instance (s : Text) (b : Block) : Decidable (b.Bare s) := inferInstanceAs (Decidable (_ = _))

variable {s : Text} {v w : Block}

theorem Block.Placed.same (outer : v.Placed s) (inner : w.Placed s) (offset : v.offset = w.offset) : v = w := by
  obtain ⟨x, y, split, rfl⟩ := outer
  obtain ⟨x', y', split', rfl⟩ := inner
  obtain ⟨rfl, rest⟩ := List.append_inj (split.symm.trans split') (Nat.succ.inj offset)
  rw [List.tail_eq_of_cons_eq rest]

-- A block that opens in the body of another one ends there.
theorem block_nests (outer : v.Placed s) (bare : v.Bare s) (inner : w.Placed s) (bare' : w.Bare s)
    (opens : v.offset ≤ w.offset) (inside : w.offset ≤ v.stop) : w.Within v := by
  refine ⟨opens, ?_⟩
  rcases Nat.eq_or_lt_of_le opens with same | behind
  · exact Nat.le_of_eq (congrArg Block.stop (outer.same inner same).symm)
  · obtain ⟨x, y, split, rfl⟩ := outer
    obtain ⟨x', y', split', rfl⟩ := inner
    unfold Block.Bare at bare bare'
    unfold Block.stop at inside ⊢
    dsimp only at bare bare' behind inside ⊢
    rw [Nat.add_sub_cancel] at bare bare'
    obtain ⟨z, rfl⟩ : x ++ ['\x7b'] <+: x' := by
      refine List.prefix_of_prefix_length_le ⟨y, ?_⟩ (List.prefix_append x' ('\x7b' :: y')) ?_
      · rw [← split', split, List.append_assoc]
        rfl
      · rw [List.length_append]
        exact Nat.lt_of_succ_lt_succ behind
    have rest : s.drop (x.length + 1) = y := by
      rw [split]
      simp
    have place : (x ++ ['\x7b'] ++ z).length = x.length + 1 + z.length := by simp only [List.length_append, List.length_singleton]
    have body : y = z ++ '\x7b' :: y' := by
      have same := split.symm.trans split'
      simp only [List.append_assoc, List.singleton_append] at same
      exact List.tail_eq_of_cons_eq (List.append_cancel_left same)
    rw [place] at bare' inside ⊢
    have nested : (code y)[z.length]? = some (some '\x7b') := by rwa [← rest, code_behind bare, List.getElem?_drop]
    have inner := @enclosed_nests '\x7b' '\x7d' y z y' body nested (by omega)
    omega

end Blocks

section Balance

/-- What follows the opening mark of a literal comes to its closing mark, on the same line. -/
def closes (mark : Char) : Text → Bool
  | [] => false
  | '\\' :: [] => false
  | '\\' :: _ :: r => closes mark r
  | c :: r => c == mark || (c != '\n' && closes mark r)

/-- The literal that the first character opens is closed. -/
def isTerminated : Text → Bool
  | [] => false
  | mark :: r =>
    if [mark, mark].isPrefixOf r then (Text.indexOf? (r.drop 2) [mark, mark, mark]).isSome else closes mark r

/-- Every literal is closed; `skip` characters still belong to one. -/
def literalsClosed : Nat → Text → Bool
  | _, [] => true
  | skip + 1, _ :: r => literalsClosed skip r
  | 0, c :: r =>
    if Text.isQuote c then isTerminated (c :: r) && literalsClosed (literalLength (c :: r) - 1) r else literalsClosed 0 r

/-- Literals are closed, and every brace outside them has its counterpart. -/
structure Balanced (s : Text) : Prop where
  closed : literalsClosed 0 s = true
  opened : ∀ k ≤ s.length, 0 ≤ braceDepth ((code s).take k)
  even : braceDepth (code s) = 0

instance (s : Text) : Decidable (Balanced s) :=
  decidable_of_iff (literalsClosed 0 s = true ∧ (∀ k ≤ s.length, 0 ≤ braceDepth ((code s).take k)) ∧ braceDepth (code s) = 0)
    ⟨fun ⟨closed, opened, even⟩ => ⟨closed, opened, even⟩, fun held => ⟨held.closed, held.opened, held.even⟩⟩

end Balance
end PipelineMigration.Script
