import PipelineMigration.Pattern.Search
set_option autoImplicit false

/- The ways in which a pattern can take a text, whatever order they are tried in. A match is one of them, and
   where there is one there is a match; so what a pattern finds is known from the text around it. -/
namespace PipelineMigration

/-- The character before what follows a text. -/
def lastOf (before : Option Char) (taken : Text) : Option Char := taken.getLast?.or before

theorem last_of_cons (before : Option Char) (c : Char) (r : Text) : lastOf before (c :: r) = lastOf (some c) r := by
  unfold lastOf
  rw [List.getLast?_cons]
  cases r.getLast? <;> rfl

theorem last_of_append (before : Option Char) (u v : Text) : lastOf before (u ++ v) = lastOf (lastOf before u) v := by
  unfold lastOf
  rw [List.getLast?_append, Option.or_assoc]

/-- The place after a text that was taken. -/
def Place.past (here : Place) (taken rest : Text) : Place :=
  ⟨lastOf here.before taken, rest, here.index + taken.length⟩

theorem Place.past_past (here : Place) (u v rest : Text) :
    (here.past u (v ++ rest)).past v rest = here.past (u ++ v) rest := by
  unfold past
  rw [last_of_append, List.length_append, Nat.add_assoc]

theorem Place.past_nothing (here : Place) : here.past [] here.ahead = here := rfl

theorem Place.advance_past (here : Place) (s rest : Text) (ahead : here.ahead = s ++ rest) :
    here.advance s.length = here.past s rest := by
  induction s generalizing here with
  | nil =>
    rw [← here.past_nothing, ahead]
    rfl
  | cons c s ih =>
    have step : here.advance (c :: s).length = Place.advance ⟨some c, s ++ rest, here.index + 1⟩ s.length := by
      rw [List.length_cons, advance, ahead]
      rfl
    rw [step, ih _ rfl, past, past, last_of_cons, List.length_cons, Nat.add_right_comm]
    rfl

theorem Place.past_cons (before : Option Char) (c : Char) (r : Text) (index : Nat) (taken rest : Text) :
    Place.past ⟨some c, r, index + 1⟩ taken rest = Place.past ⟨before, c :: r, index⟩ (c :: taken) rest := by
  rw [past, past, last_of_cons, List.length_cons, Nat.add_right_comm]
  rfl

/-- A place that lies beyond at least so many characters, all of one class. -/
def Place.Over (p : Char → Bool) (least : Nat) (here there : Place) : Prop :=
  ∃ taken rest, here.ahead = taken ++ rest ∧ (least ≤ taken.length ∧ ∀ c ∈ taken, p c = true) ∧
    there = here.past taken rest

theorem Place.over_zero_iff (p : Char → Bool) (here there : Place) :
    here.Over p 0 there ↔ there = here ∨ here.Over p 1 there := by
  constructor
  · rintro ⟨taken, rest, whole, ⟨-, all⟩, rfl⟩
    cases taken with
    | nil =>
      rw [List.nil_append] at whole
      exact .inl (whole ▸ here.past_nothing)
    | cons c taken => exact .inr ⟨c :: taken, rest, whole, ⟨Nat.le_add_left 1 _, all⟩, rfl⟩
  · rintro (rfl | ⟨taken, rest, whole, ⟨-, all⟩, rfl⟩)
    · exact ⟨[], there.ahead, rfl, ⟨Nat.zero_le _, fun _ none => nomatch none⟩, there.past_nothing.symm⟩
    · exact ⟨taken, rest, whole, ⟨Nat.zero_le _, all⟩, rfl⟩

theorem Place.not_over_end (p : Char → Bool) (least : Nat) (before : Option Char) (index : Nat) (there : Place) :
    ¬ Place.Over p (least + 1) ⟨before, [], index⟩ there := by
  rintro ⟨taken, rest, whole, ⟨enough, -⟩, rfl⟩
  obtain ⟨rfl, -⟩ := List.append_eq_nil_iff.1 whole.symm
  exact Nat.not_succ_le_zero _ enough

theorem Place.over_succ_iff (p : Char → Bool) (least : Nat) (before : Option Char) (c : Char) (r : Text) (index : Nat)
    (there : Place) : Place.Over p (least + 1) ⟨before, c :: r, index⟩ there ↔
      p c = true ∧ Place.Over p least ⟨some c, r, index + 1⟩ there := by
  constructor
  · rintro ⟨taken, rest, whole, ⟨enough, all⟩, rfl⟩
    cases taken with
    | nil => exact absurd enough (Nat.not_succ_le_zero _)
    | cons d taken =>
      obtain ⟨rfl, behind⟩ := List.cons.inj whole
      obtain ⟨named, later⟩ := List.forall_mem_cons.1 all
      exact ⟨named, taken, rest, behind, ⟨Nat.le_of_succ_le_succ enough, later⟩, (Place.past_cons ..).symm⟩
  · rintro ⟨named, taken, rest, behind, ⟨enough, later⟩, rfl⟩
    exact ⟨c :: taken, rest, congrArg (c :: ·) behind,
      ⟨Nat.succ_le_succ enough, List.forall_mem_cons.2 ⟨named, later⟩⟩, Place.past_cons ..⟩

-- A place is reached over characters of a class when these were taken.
theorem Place.mem_reach_iff (p : Char → Bool) (least : Nat) (before : Option Char) (index : Nat) (s : Text)
    (there : Place) :
    there ∈ (Place.reach p before index s).drop least ↔ Place.Over p least ⟨before, s, index⟩ there := by
  induction s generalizing least before index with
  | nil =>
    cases least with
    | zero => simp [reach, over_zero_iff, not_over_end]
    | succ least => simp [reach, not_over_end]
  | cons c r ih =>
    have later (least : Nat) : there ∈ (if p c then Place.reach p (some c) (index + 1) r else []).drop least ↔
        Place.Over p (least + 1) ⟨before, c :: r, index⟩ there := by
      rw [over_succ_iff, ← ih]
      by_cases named : p c = true <;> simp [named]
    cases least with
    | zero =>
      rw [List.drop_zero, reach, List.mem_cons, over_zero_iff]
      exact or_congr_right (later 0)
    | succ least => exact later least

namespace Pattern

/-- Captured texts with their slots, the latest first. -/
abbrev Texts := List (Nat × Text)

/-- One or more of the same, one after the other, none of them empty. -/
inductive Repeats (way : Option Char → Text → Text → Texts → Prop) : Option Char → Text → Text → Texts → Prop
  | once {before : Option Char} {u rest : Text} {k : Texts} (filled : u ≠ []) (first : way before u rest k) :
      Repeats way before u rest k
  | again {before : Option Char} {u v rest : Text} {k l : Texts} (filled : u ≠ []) (first : way before u (v ++ rest) k)
      (more : Repeats way (lastOf before u) v rest l) : Repeats way before (u ++ v) rest (l ++ k)

/-- A way to match: after the character `before` the text `taken` is taken, `rest` follows, and the texts
    `caught` are captured. -/
def Takes : Pattern → Option Char → Text → Text → Texts → Prop
  | empty, _, taken, _, caught => taken = [] ∧ caught = []
  | one p, _, taken, _, caught => (∃ c, p c = true ∧ taken = [c]) ∧ caught = []
  | exactly s, _, taken, _, caught => taken = s ∧ caught = []
  | andThen a b, before, taken, rest, caught => ∃ u v k l, a.Takes before u (v ++ rest) k ∧
      b.Takes (lastOf before u) v rest l ∧ taken = u ++ v ∧ caught = l ++ k
  | orElse a b, before, taken, rest, caught => a.Takes before taken rest caught ∨ b.Takes before taken rest caught
  | longest least p, _, taken, _, caught => (least ≤ taken.length ∧ ∀ c ∈ taken, p c = true) ∧ caught = []
  | shortest least p, _, taken, _, caught => (least ≤ taken.length ∧ ∀ c ∈ taken, p c = true) ∧ caught = []
  | several a, before, taken, rest, caught => Repeats a.Takes before taken rest caught
  | capture slot a, before, taken, rest, caught => ∃ k, a.Takes before taken rest k ∧ caught = (slot, taken) :: k
  | around test, before, taken, rest, caught => test before rest = true ∧ taken = [] ∧ caught = []

/-- The texts of captured spans. -/
def told (spans : Captures) : Texts := spans.map fun e => (e.1, e.2.text)

section Run

variable {α : Type}

/-- A result was handed out after a text was taken in one of the ways. -/
def Passed (way : Option Char → Text → Text → Texts → Prop) (here : Place) (caught : Captures)
    (next : Place → Captures → Option α) (result : α) : Prop :=
  ∃ taken rest spans, here.ahead = taken ++ rest ∧ way here.before taken rest (told spans) ∧
    next (here.past taken rest) (spans ++ caught) = some result

theorem severally_passed {way : Option Char → Text → Text → Texts → Prop}
    (step : Place → Captures → (Place → Captures → Option α) → Option α)
    (steps : ∀ here caught next result, step here caught next = some result → Passed way here caught next result)
    (fuel : Nat) (here : Place) (caught : Captures) (next : Place → Captures → Option α) (result : α)
    (done : severally step fuel here caught next = some result) : Passed (Repeats way) here caught next result := by
  induction fuel generalizing here caught with
  | zero => cases done
  | succ fuel ih =>
    rw [severally] at done
    obtain ⟨taken, rest, spans, ahead, first, accepted⟩ := steps _ _ _ _ done
    dsimp only at accepted
    split at accepted
    · cases accepted
    · rename_i further
      have filled : taken ≠ [] := by
        rintro rfl
        exact further (Nat.le_refl _)
      split at accepted
      · rename_i again same
        obtain ⟨more, last, others, behind, next, accepted⟩ := ih _ _ (same.trans accepted)
        obtain rfl : rest = more ++ last := behind
        refine ⟨taken ++ more, last, others ++ spans, by rw [ahead, List.append_assoc], ?_, ?_⟩
        · rw [told, List.map_append]
          exact .again filled first next
        · rw [← here.past_past, List.append_assoc]
          exact accepted
      · exact ⟨taken, rest, spans, ahead, .once filled first, accepted⟩

theorem reached_passed (p : Char → Bool) (least : Nat) (here : Place) (caught : Captures)
    (next : Place → Captures → Option α) (result : α) (places : List Place)
    (among : ∀ there ∈ places, there ∈ (Place.reach p here.before here.index here.ahead).drop least)
    (done : places.findSome? (next · caught) = some result) :
    Passed (longest least p).Takes here caught next result := by
  obtain ⟨there, member, accepted⟩ := List.exists_of_findSome?_eq_some done
  obtain ⟨taken, rest, ahead, held, rfl⟩ := (Place.mem_reach_iff p least _ _ _ _).1 (among there member)
  exact ⟨taken, rest, [], ahead, ⟨held, rfl⟩, accepted⟩

-- A match takes a text in one of the ways.
theorem run_passed (a : Pattern) (here : Place) (caught : Captures) (next : Place → Captures → Option α) (result : α)
    (done : a.run here caught next = some result) : Passed a.Takes here caught next result := by
  induction a generalizing here caught next result with
  | empty => exact ⟨[], here.ahead, [], rfl, ⟨rfl, rfl⟩, done⟩
  | one p =>
    rw [run] at done
    split at done
    · cases done
    · rename_i c r ahead
      split at done
      · rename_i named
        exact ⟨[c], r, [], ahead, ⟨⟨c, named, rfl⟩, rfl⟩, done⟩
      · cases done
  | exactly s =>
    rw [run] at done
    split at done
    · rename_i begins
      obtain ⟨rest, ahead⟩ := List.isPrefixOf_iff_prefix.1 begins
      rw [here.advance_past s rest ahead.symm] at done
      exact ⟨s, rest, [], ahead.symm, ⟨rfl, rfl⟩, done⟩
    · cases done
  | andThen a b first second =>
    obtain ⟨u, behind, spans, ahead, taken, accepted⟩ := first here caught _ _ done
    obtain ⟨v, rest, others, further, more, accepted⟩ := second _ _ next _ accepted
    obtain rfl : behind = v ++ rest := further
    refine ⟨u ++ v, rest, others ++ spans, by rw [ahead, List.append_assoc], ?_, ?_⟩
    · exact ⟨u, v, told spans, told others, taken, more, rfl, List.map_append⟩
    · rw [← here.past_past, List.append_assoc]
      exact accepted
  | orElse a b first second =>
    rw [run] at done
    split at done
    · rename_i other same
      obtain ⟨taken, rest, spans, ahead, way, accepted⟩ := first here caught next _ (same.trans done)
      exact ⟨taken, rest, spans, ahead, .inl way, accepted⟩
    · obtain ⟨taken, rest, spans, ahead, way, accepted⟩ := second here caught next _ done
      exact ⟨taken, rest, spans, ahead, .inr way, accepted⟩
  | longest least p =>
    exact reached_passed p least here caught next result _ (fun there member => List.mem_reverse.1 member) done
  | shortest least p =>
    exact reached_passed p least here caught next result _ (fun there member => member) done
  | several a ih => exact severally_passed a.run ih _ here caught next result done
  | capture slot a ih =>
    obtain ⟨taken, rest, spans, ahead, way, accepted⟩ := ih here caught _ _ done
    have text : Span.text ⟨here, (here.past taken rest).index⟩ = taken := by
      unfold Span.text Place.past
      dsimp only
      rw [ahead, Nat.add_sub_cancel_left, List.take_left]
    refine ⟨taken, rest, (slot, ⟨here, (here.past taken rest).index⟩) :: spans, ahead, ⟨told spans, way, ?_⟩, accepted⟩
    rw [told, List.map_cons, text]
    rfl
  | around test =>
    rw [run] at done
    split at done
    · rename_i held
      exact ⟨[], here.ahead, [], rfl, ⟨held, rfl, rfl⟩, done⟩
    · cases done

theorem reached_done (p : Char → Bool) (least : Nat) (here : Place) (taken rest : Text) (ahead : here.ahead = taken ++ rest)
    (held : least ≤ taken.length ∧ ∀ c ∈ taken, p c = true) (caught : Captures) (next : Place → Captures → Option α)
    (accepts : (next (here.past taken rest) caught).isSome = true) (places : List Place)
    (among : ∀ there, there ∈ (Place.reach p here.before here.index here.ahead).drop least → there ∈ places) :
    (places.findSome? (next · caught)).isSome = true := by
  refine List.findSome?_isSome_iff.2 ⟨here.past taken rest, among _ ?_, accepts⟩
  exact (Place.mem_reach_iff p least _ _ _ _).2 ⟨taken, rest, ahead, held, rfl⟩

theorem severally_done {way : Option Char → Text → Text → Texts → Prop}
    (step : Place → Captures → (Place → Captures → Option α) → Option α)
    (steps : ∀ (here : Place) (taken rest : Text) (k : Texts), here.ahead = taken ++ rest → way here.before taken rest k →
      ∀ caught (next : Place → Captures → Option α), (∀ caught, (next (here.past taken rest) caught).isSome = true) →
        (step here caught next).isSome = true)
    (fuel : Nat) (here : Place) (taken rest : Text) (k : Texts) (ahead : here.ahead = taken ++ rest)
    (repeated : Repeats way here.before taken rest k) (enough : taken.length < fuel) (caught : Captures)
    (next : Place → Captures → Option α) (accepts : ∀ caught, (next (here.past taken rest) caught).isSome = true) :
    (severally step fuel here caught next).isSome = true := by
  generalize before : here.before = start at repeated
  induction repeated generalizing fuel here caught with
  | @once start u rest k filled first =>
    obtain ⟨fuel, rfl⟩ := Nat.exists_eq_succ_of_ne_zero (Nat.ne_of_gt (Nat.lt_of_le_of_lt (Nat.zero_le _) enough))
    rw [severally]
    refine steps here u rest k ahead (before ▸ first) caught _ fun caught => ?_
    have further : ¬ (here.past u rest).index ≤ here.index := by
      have := List.length_pos_iff.2 filled
      change ¬ here.index + u.length ≤ here.index
      omega
    rw [if_neg further]
    split
    · rfl
    · exact accepts caught
  | @again start u v rest k l filled first more ih =>
    obtain ⟨fuel, rfl⟩ := Nat.exists_eq_succ_of_ne_zero (Nat.ne_of_gt (Nat.lt_of_le_of_lt (Nat.zero_le _) enough))
    rw [severally]
    have split : here.ahead = u ++ (v ++ rest) := by rw [ahead, List.append_assoc]
    refine steps here u (v ++ rest) k split (before ▸ first) caught _ fun caught => ?_
    have longer := List.length_pos_iff.2 filled
    have further : ¬ (here.past u (v ++ rest)).index ≤ here.index := by
      change ¬ here.index + u.length ≤ here.index
      omega
    rw [if_neg further]
    have again := ih fuel (here.past u (v ++ rest)) rfl (by
        rw [List.length_append] at enough
        omega) caught (by rw [here.past_past]; exact accepts) (by rw [← before]; rfl)
    obtain ⟨result, done⟩ := Option.isSome_iff_exists.1 again
    rw [done]
    rfl

-- Where a text can be taken there is a match.
theorem run_done (a : Pattern) (here : Place) (taken rest : Text) (k : Texts) (ahead : here.ahead = taken ++ rest)
    (way : a.Takes here.before taken rest k) (caught : Captures) (next : Place → Captures → Option α)
    (accepts : ∀ caught, (next (here.past taken rest) caught).isSome = true) :
    (a.run here caught next).isSome = true := by
  induction a generalizing here taken rest k caught next with
  | empty =>
    obtain ⟨rfl, -⟩ := way
    obtain rfl : here.ahead = rest := ahead
    exact accepts caught
  | one p =>
    obtain ⟨⟨c, named, rfl⟩, -⟩ := way
    have ahead : here.ahead = c :: rest := ahead
    rw [run, ahead]
    dsimp only
    rw [if_pos named]
    exact accepts caught
  | exactly s =>
    obtain ⟨rfl, -⟩ := way
    rw [run, if_pos (List.isPrefixOf_iff_prefix.2 ⟨rest, ahead.symm⟩), here.advance_past _ rest ahead]
    exact accepts caught
  | andThen a b first second =>
    obtain ⟨u, v, k, l, taken, more, rfl, -⟩ := way
    rw [run]
    refine first here u (v ++ rest) k (by rw [ahead, List.append_assoc]) taken caught _ fun caught => ?_
    refine second _ v rest l rfl more caught next ?_
    rw [here.past_past]
    exact accepts
  | orElse a b first second =>
    rw [run]
    split
    · rfl
    · rename_i failed
      rcases way with way | way
      · have done := first here taken rest k ahead way caught next accepts
        rw [failed] at done
        cases done
      · exact second here taken rest k ahead way caught next accepts
  | longest least p =>
    exact reached_done p least here taken rest ahead way.1 caught next (accepts caught) _ fun there => List.mem_reverse.2
  | shortest least p =>
    exact reached_done p least here taken rest ahead way.1 caught next (accepts caught) _ fun there => id
  | several a ih =>
    refine severally_done a.run (fun here taken rest k ahead way caught next =>
      ih here taken rest k ahead way caught next) _ here taken rest k ahead way ?_ caught next accepts
    rw [ahead, List.length_append]
    omega
  | capture slot a ih =>
    obtain ⟨k, way, -⟩ := way
    exact ih here taken rest k ahead way caught _ fun caught => accepts _
  | around test =>
    obtain ⟨held, rfl, -⟩ := way
    obtain rfl : here.ahead = rest := ahead
    rw [run, if_pos held]
    exact accepts caught

end Run

section Sequences

variable {a b : Pattern} {before : Option Char} {taken rest : Text} {k : Texts}

theorem then_takes : (a ++ b).Takes before taken rest k ↔ ∃ u v l m, a.Takes before u (v ++ rest) l ∧
    b.Takes (lastOf before u) v rest m ∧ taken = u ++ v ∧ k = m ++ l := Iff.rfl

theorem then_exactly {s : Text} :
    (a ++ exactly s).Takes before taken rest k ↔ ∃ u, a.Takes before u (s ++ rest) k ∧ taken = u ++ s := by
  constructor
  · rintro ⟨u, v, l, m, way, ⟨rfl, rfl⟩, rfl, rfl⟩
    exact ⟨u, way, rfl⟩
  · rintro ⟨u, way, rfl⟩
    exact ⟨u, s, k, [], way, ⟨rfl, rfl⟩, rfl, rfl⟩

theorem then_longest {least : Nat} {p : Char → Bool} :
    (a ++ longest least p).Takes before taken rest k ↔ ∃ u run, a.Takes before u (run ++ rest) k ∧
      least ≤ run.length ∧ (∀ c ∈ run, p c = true) ∧ taken = u ++ run := by
  constructor
  · rintro ⟨u, v, l, m, way, ⟨⟨enough, all⟩, rfl⟩, rfl, rfl⟩
    exact ⟨u, v, way, enough, all, rfl⟩
  · rintro ⟨u, run, way, enough, all, rfl⟩
    exact ⟨u, run, k, [], way, ⟨⟨enough, all⟩, rfl⟩, rfl, rfl⟩

theorem then_blanks : (a ++ blanks).Takes before taken rest k ↔ ∃ u gap, a.Takes before u (gap ++ rest) k ∧
    (∀ c ∈ gap, Text.isBlank c = true) ∧ taken = u ++ gap := by
  refine then_longest.trans (exists_congr fun u => exists_congr fun gap => ?_)
  simp only [Nat.zero_le, true_and]

-- Before a letter, a word begins or the place is inside one.
theorem edge_before (letter : rest.head?.any Text.isWord = true) :
    edge.Takes before taken rest k ↔ before.any Text.isWord = false ∧ taken = [] ∧ k = [] := by
  constructor
  · rintro ⟨held, rfl, rfl⟩
    dsimp only at held
    rw [letter] at held
    cases inside : before.any Text.isWord with
    | false => exact ⟨rfl, rfl, rfl⟩
    | true =>
      rw [inside] at held
      cases held
  · rintro ⟨outside, rfl, rfl⟩
    refine ⟨?_, rfl, rfl⟩
    dsimp only
    rw [outside, letter]
    rfl

theorem edge_then {s : Text} (letter : s.head?.any Text.isWord = true) :
    (edge ++ exactly s).Takes before taken rest k ↔ before.any Text.isWord = false ∧ taken = s ∧ k = [] := by
  have first : (s ++ rest).head?.any Text.isWord = true := by
    cases s with
    | nil => cases letter
    | cons c s => exact letter
  rw [then_exactly]
  constructor
  · rintro ⟨u, way, rfl⟩
    obtain ⟨outside, rfl, rfl⟩ := (edge_before first).1 way
    exact ⟨outside, rfl, rfl⟩
  · rintro ⟨outside, rfl, rfl⟩
    exact ⟨[], (edge_before first).2 ⟨outside, rfl, rfl⟩, rfl⟩

theorem then_assoc {c : Pattern} : (a ++ (b ++ c)).Takes before taken rest k ↔ (a ++ b ++ c).Takes before taken rest k := by
  constructor
  · rintro ⟨u, _, l, _, first, ⟨v, w, m, n, second, third, rfl, rfl⟩, rfl, rfl⟩
    rw [List.append_assoc] at first
    rw [← last_of_append] at third
    exact ⟨u ++ v, w, m ++ l, n, ⟨u, v, l, m, first, second, rfl, rfl⟩, third, (List.append_assoc u v w).symm,
      List.append_assoc n m l⟩
  · rintro ⟨_, w, _, n, ⟨u, v, l, m, first, second, rfl, rfl⟩, third, rfl, rfl⟩
    rw [last_of_append] at third
    rw [← List.append_assoc] at first
    exact ⟨u, v ++ w, l, n ++ m, first, ⟨v, w, m, n, second, third, rfl, rfl⟩, List.append_assoc u v w,
      (List.append_assoc n m l).symm⟩

-- A run of characters between quote marks.
theorem quoted_takes {slot least : Nat} {p : Char → Bool} :
    (quoteMark ++ capture slot (longest least p) ++ quoteMark).Takes before taken rest k ↔
      ∃ mark value close, Text.isQuote mark = true ∧ (least ≤ value.length ∧ ∀ c ∈ value, p c = true) ∧
        Text.isQuote close = true ∧ taken = mark :: (value ++ [close]) ∧ k = [(slot, value)] := by
  constructor
  · rintro ⟨_, _, _, _, ⟨_, _, _, _, ⟨⟨mark, opens, rfl⟩, rfl⟩, ⟨_, ⟨held, rfl⟩, rfl⟩, rfl, rfl⟩, ⟨⟨close, closes, rfl⟩, rfl⟩,
      rfl, rfl⟩
    exact ⟨mark, _, close, opens, held, closes, rfl, rfl⟩
  · rintro ⟨mark, value, close, opens, held, closes, rfl, rfl⟩
    exact ⟨[mark] ++ value, [close], [(slot, value)], [],
      ⟨[mark], value, [], [(slot, value)], ⟨⟨mark, opens, rfl⟩, rfl⟩, ⟨[], ⟨held, rfl⟩, rfl⟩, rfl, rfl⟩,
      ⟨⟨close, closes, rfl⟩, rfl⟩, rfl, rfl⟩

theorem then_quoted {slot least : Nat} {p : Char → Bool} :
    (a ++ quoteMark ++ capture slot (longest least p) ++ quoteMark).Takes before taken rest k ↔
      ∃ u mark value close l, a.Takes before u (mark :: (value ++ close :: rest)) l ∧ Text.isQuote mark = true ∧
        (least ≤ value.length ∧ ∀ c ∈ value, p c = true) ∧ Text.isQuote close = true ∧
        taken = u ++ mark :: (value ++ [close]) ∧ k = (slot, value) :: l := by
  have bundled : (a ++ quoteMark ++ capture slot (longest least p) ++ quoteMark).Takes before taken rest k ↔
      (a ++ (quoteMark ++ capture slot (longest least p) ++ quoteMark)).Takes before taken rest k := by
    rw [then_assoc, then_takes, then_takes]
    simp only [then_assoc]
  rw [bundled, then_takes]
  constructor
  · rintro ⟨u, _, l, _, first, quoted, rfl, rfl⟩
    obtain ⟨mark, value, close, opens, held, closes, rfl, rfl⟩ := quoted_takes.1 quoted
    exact ⟨u, mark, value, close, l, by simpa using first, opens, held, closes, rfl, rfl⟩
  · rintro ⟨u, mark, value, close, l, first, opens, held, closes, rfl, rfl⟩
    exact ⟨u, _, l, _, by simpa using first, quoted_takes.2 ⟨mark, value, close, opens, held, closes, rfl, rfl⟩, rfl, rfl⟩

-- One of several texts is taken.
theorem any_exactly {α : Type} {f : α → Text} {members : List α}
    (way : (anyOf (members.map fun x => exactly (f x))).Takes before taken rest k) : ∃ x ∈ members, taken = f x ∧ k = [] := by
  induction members with
  | nil => cases way.1
  | cons x members ih =>
    have later (way : (anyOf (members.map fun x => exactly (f x))).Takes before taken rest k) :
        ∃ y ∈ x :: members, taken = f y ∧ k = [] := by
      obtain ⟨y, member, held⟩ := ih way
      exact ⟨y, List.mem_cons_of_mem x member, held⟩
    cases members with
    | nil => exact ⟨x, List.mem_cons_self, way⟩
    | cons y members =>
      rcases way with way | way
      · exact ⟨x, List.mem_cons_self, way⟩
      · exact later way

end Sequences

section Matches

/-- The text captured last in a slot. -/
def textIn (k : Texts) (slot : Nat) : Text := ((k.find? (·.1 == slot)).map (·.2)).getD []

/-- A match of a pattern in a text: what stands before, what was taken and what follows. -/
structure Found (a : Pattern) (s : Text) (m : Match) (pre taken rest : Text) (k : Texts) : Prop where
  whole : s = pre ++ (taken ++ rest)
  way : a.Takes pre.getLast? taken rest k
  start : m.start = pre.length
  stop : m.stop = pre.length + taken.length
  text : m.text = taken
  after : m.after.ahead = rest
  captured : ∀ slot, m.captured slot = textIn k slot
  caught : ∀ slot, (m.span? slot).isSome = (k.find? (·.1 == slot)).isSome

theorem find_told (spans : Captures) (slot : Nat) : ((spans.find? (·.1 == slot)).map fun e => (e.1, e.2.text)) =
    (told spans).find? (·.1 == slot) := by
  rw [told, List.find?_map]
  rfl

theorem captured_told (span : Span) (after : Place) (spans : Captures) (slot : Nat) :
    Match.captured ⟨span, after, spans⟩ slot = textIn (told spans) slot := by
  unfold Match.captured Match.text? Match.span? textIn
  rw [← find_told, Option.map_map, Option.map_map]
  rfl

theorem match_found {a : Pattern} {pre ahead : Text} {m : Match}
    (found : a.matchAt ⟨pre.getLast?, ahead, pre.length⟩ = some m) :
    ∃ taken rest k, a.Found (pre ++ ahead) m pre taken rest k := by
  obtain ⟨taken, rest, spans, whole, way, accepted⟩ := run_passed a _ [] _ m found
  obtain rfl := Option.some.inj accepted
  obtain rfl : ahead = taken ++ rest := whole
  refine ⟨taken, rest, told spans, rfl, way, rfl, rfl, ?_, rfl, fun slot => ?_, fun slot => ?_⟩
  · unfold Match.text Span.text Place.past
    dsimp only
    rw [Nat.add_sub_cancel_left, List.take_left]
  · rw [captured_told, List.append_nil]
  · unfold Match.span?
    rw [← find_told, List.append_nil, Option.isSome_map, Option.isSome_map]

theorem match_done {a : Pattern} {pre taken rest : Text} {k : Texts} (way : a.Takes pre.getLast? taken rest k) :
    ∃ m, a.matchAt ⟨pre.getLast?, taken ++ rest, pre.length⟩ = some m :=
  Option.isSome_iff_exists.1 (run_done a _ taken rest k rfl way [] _ fun _ => rfl)

theorem last_append_one (pre : Text) (c : Char) : (pre ++ [c]).getLast? = some c := List.getLast?_concat

theorem length_append_one (pre : Text) (c : Char) : (pre ++ [c]).length = pre.length + 1 := List.length_append

-- Every match that is listed was found at a place of the text, behind what was to be skipped.
theorem match_from_place {a : Pattern} {m : Match} (before : Option Char) (index skip : Nat) (s : Text)
    (member : m ∈ a.matchesFrom before index skip s) :
    ∃ u v, s = u ++ v ∧ skip ≤ u.length ∧ a.matchAt (Place.past ⟨before, s, index⟩ u v) = some m := by
  induction s generalizing before index skip with
  | nil => cases skip with
    | zero => exact ⟨[], [], rfl, Nat.le_refl 0, Option.mem_toList.1 member⟩
    | succ skip => cases member
  | cons c r ih =>
    have later (skip : Nat) (member : m ∈ a.matchesFrom (some c) (index + 1) skip r) : ∃ u v, c :: r = u ++ v ∧
        skip + 1 ≤ u.length ∧ a.matchAt (Place.past ⟨before, c :: r, index⟩ u v) = some m := by
      obtain ⟨u, v, whole, beyond, found⟩ := ih _ _ _ member
      rw [Place.past_cons before] at found
      exact ⟨c :: u, v, congrArg (c :: ·) whole, Nat.succ_le_succ beyond, found⟩
    cases skip with
    | succ skip => exact later skip member
    | zero =>
      rw [matchesFrom] at member
      split at member
      · obtain ⟨u, v, whole, -, found⟩ := later 0 member
        exact ⟨u, v, whole, Nat.zero_le _, found⟩
      · rename_i first same
        rcases List.mem_cons.1 member with rfl | member
        · exact ⟨[], c :: r, rfl, Nat.le_refl 0, same⟩
        · obtain ⟨u, v, whole, -, found⟩ := later _ member
          exact ⟨u, v, whole, Nat.zero_le _, found⟩

theorem match_from_found {a : Pattern} {m : Match} (pre s : Text) (skip : Nat)
    (member : m ∈ a.matchesFrom pre.getLast? pre.length skip s) :
    ∃ u taken rest k, skip ≤ u.length ∧ a.Found (pre ++ s) m (pre ++ u) taken rest k := by
  obtain ⟨u, v, rfl, beyond, found⟩ := match_from_place _ _ skip s member
  have place : Place.past ⟨pre.getLast?, u ++ v, pre.length⟩ u v = ⟨(pre ++ u).getLast?, v, (pre ++ u).length⟩ := by
    rw [Place.past, lastOf, List.getLast?_append, List.length_append]
  rw [place] at found
  obtain ⟨taken, rest, k, held⟩ := match_found found
  exact ⟨u, taken, rest, k, beyond, List.append_assoc pre u v ▸ held⟩

theorem match_from_start {a : Pattern} {m : Match} (pre s : Text) (skip : Nat)
    (member : m ∈ a.matchesFrom pre.getLast? pre.length skip s) : pre.length + skip ≤ m.start := by
  obtain ⟨u, taken, rest, k, beyond, found⟩ := match_from_found pre s skip member
  rw [found.start, List.length_append]
  exact Nat.add_le_add_left beyond _

theorem all_matches_found {a : Pattern} {s : Text} {m : Match} (member : m ∈ a.allMatches s) :
    ∃ pre taken rest k, a.Found s m pre taken rest k := by
  obtain ⟨pre, taken, rest, k, -, found⟩ := match_from_found [] s 0 member
  exact ⟨pre, taken, rest, k, found⟩

/-- A listed match begins at a place, or one that began before it reaches further. -/
def Covered (listed : List Match) (place : Nat) : Prop :=
  ∃ m ∈ listed, m.start ≤ place ∧ (m.start = place ∨ place < m.stop)

theorem Covered.cons {listed : List Match} {place : Nat} (covered : Covered listed place) (m : Match) :
    Covered (m :: listed) place := by
  obtain ⟨n, member, held⟩ := covered
  exact ⟨n, List.mem_cons_of_mem m member, held⟩

theorem covered_at {listed : List Match} {m : Match} {place : Nat} (member : m ∈ listed) (start : m.start = place) :
    Covered listed place :=
  ⟨m, member, Nat.le_of_eq start, .inl start⟩

theorem match_starts {a : Pattern} {pre ahead : Text} {m : Match}
    (found : a.matchAt ⟨pre.getLast?, ahead, pre.length⟩ = some m) : m.start = pre.length := by
  obtain ⟨taken, rest, k, place⟩ := match_found found
  exact place.start

theorem match_from_covers {a : Pattern} (pre s u v : Text) (skip : Nat) (whole : s = u ++ v) (beyond : skip ≤ u.length)
    (here : (a.matchAt ⟨(pre ++ u).getLast?, v, (pre ++ u).length⟩).isSome = true) :
    Covered (a.matchesFrom pre.getLast? pre.length skip s) (pre ++ u).length := by
  induction s generalizing pre u skip with
  | nil =>
    obtain ⟨rfl, rfl⟩ := List.append_eq_nil_iff.1 whole.symm
    obtain rfl := Nat.le_zero.1 beyond
    rw [List.append_nil] at here ⊢
    obtain ⟨m, found⟩ := Option.isSome_iff_exists.1 here
    exact covered_at (Option.mem_toList.2 found) (match_starts found)
  | cons c r ih =>
    have later (u : Text) (skip : Nat) (whole : r = u ++ v) (beyond : skip ≤ u.length)
        (here : (a.matchAt ⟨(pre ++ c :: u).getLast?, v, (pre ++ c :: u).length⟩).isSome = true) :
        Covered (a.matchesFrom (some c) (pre.length + 1) skip r) (pre ++ c :: u).length := by
      rw [List.append_cons] at here ⊢
      rw [← last_append_one pre c, ← length_append_one pre c]
      exact ih (pre ++ [c]) u skip whole beyond here
    cases skip with
    | succ skip => cases u with
      | nil => exact absurd beyond (Nat.not_succ_le_zero _)
      | cons d u =>
        obtain ⟨rfl, behind⟩ := List.cons.inj whole
        exact later u skip behind (Nat.le_of_succ_le_succ beyond) here
    | zero =>
      rw [matchesFrom]
      cases u with
      | nil =>
        rw [List.append_nil] at here ⊢
        obtain rfl : c :: r = v := whole
        obtain ⟨m, found⟩ := Option.isSome_iff_exists.1 here
        rw [found]
        exact covered_at List.mem_cons_self (match_starts found)
      | cons d u =>
        obtain ⟨rfl, behind⟩ := List.cons.inj whole
        split
        · exact later u 0 behind (Nat.zero_le _) here
        · rename_i m found
          -- A match from here reaches beyond the place, or ends before it.
          by_cases ends : m.stop - m.start - 1 ≤ u.length
          · exact (later u _ behind ends here).cons m
          · have start := match_starts found
            refine ⟨m, List.mem_cons_self, ?_, .inr ?_⟩
            · rw [start, List.length_append]
              omega
            · rw [List.length_append, List.length_cons, ← start]
              omega

-- Where a text can be taken a listed match begins, or one that began before reaches further.
theorem all_matches_cover {a : Pattern} {s pre taken rest : Text} {k : Texts} (whole : s = pre ++ (taken ++ rest))
    (way : a.Takes pre.getLast? taken rest k) : Covered (a.allMatches s) pre.length := by
  obtain ⟨m, found⟩ := match_done way
  exact match_from_covers [] s pre (taken ++ rest) 0 whole (Nat.zero_le _) (Option.isSome_iff_exists.2 ⟨m, found⟩)

-- The same, told by the texts: the listed match begins `x` before the place, and reaches it.
theorem all_matches_near {a : Pattern} {s pre taken rest : Text} {k : Texts} (whole : s = pre ++ (taken ++ rest))
    (way : a.Takes pre.getLast? taken rest k) :
    ∃ m ∈ a.allMatches s, ∃ pre' taken' rest' k' x, a.Found s m pre' taken' rest' k' ∧ pre = pre' ++ x ∧
      taken' ++ rest' = x ++ (taken ++ rest) ∧ (x = [] ∨ x.length < taken'.length) := by
  obtain ⟨m, listed, early, place⟩ := all_matches_cover whole way
  obtain ⟨pre', taken', rest', k', found⟩ := all_matches_found listed
  rw [found.start] at early place
  rw [found.stop] at place
  have same := found.whole.symm.trans whole
  have front : pre' <+: pre := List.prefix_of_prefix_length_le ⟨_, same⟩ (List.prefix_append _ _) early
  obtain ⟨x, rfl⟩ := front
  rw [List.append_assoc] at same
  refine ⟨m, listed, pre', taken', rest', k', x, found, rfl, List.append_cancel_left same, ?_⟩
  rw [List.length_append] at place
  rcases place with place | place
  · exact .inl (List.length_eq_zero_iff.1 (by omega))
  · exact .inr (by omega)

end Matches
end Pattern
end PipelineMigration
