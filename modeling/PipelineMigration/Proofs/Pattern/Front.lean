import PipelineMigration.Proofs.Pattern.Taken
set_option autoImplicit false

/- What a search finds in the front of a text. It goes from left to right, so that it finds what it finds in the whole
   text up to there, when the text behind a match has no say in it. -/
namespace PipelineMigration

/-- What is told of a match: where it stands, and what it captures in a slot. -/
def Match.tell (slot : Nat) (m : Match) : Nat × Nat × Text := (m.start, m.stop, m.captured slot)

namespace Pattern

section Order

variable {a : Pattern}

-- Matches do not overlap, and come in their order.
theorem matches_from_ordered (pre s : Text) (skip : Nat) :
    (a.matchesFrom pre.getLast? pre.length skip s).Pairwise fun m n => m.stop ≤ n.start := by
  induction s generalizing pre skip with
  | nil => cases skip with
    | zero =>
      rw [matchesFrom]
      cases a.matchAt ⟨pre.getLast?, [], pre.length⟩ with
      | none => exact .nil
      | some m => exact List.pairwise_singleton _ m
    | succ skip => exact .nil
  | cons c r ih =>
    have later (skip : Nat) : (a.matchesFrom (some c) (pre.length + 1) skip r).Pairwise fun m n => m.stop ≤ n.start := by
      rw [← last_append_one pre c, ← length_append_one pre c]
      exact ih (pre ++ [c]) skip
    cases skip with
    | zero =>
      rw [matchesFrom]
      split
      · exact later 0
      · rename_i m same
        obtain ⟨taken, rest, k, found⟩ := match_found same
        refine List.pairwise_cons.2 ⟨fun n member => ?_, later _⟩
        rw [← last_append_one pre c, ← length_append_one pre c] at member
        have behind := match_from_start (pre ++ [c]) r _ member
        rw [length_append_one, found.start] at behind
        omega
    | succ skip => exact later skip

theorem matches_ordered (a : Pattern) (s : Text) : (a.allMatches s).Pairwise fun m n => m.stop ≤ n.start :=
  matches_from_ordered [] s 0

end Order

/-- What a pattern takes is told by the text before it and in it, some text that is taken in one way only, of which
    no smaller part can be taken. -/
structure Definite (a : Pattern) : Prop where
  free : ∀ before taken rest rest' k, a.Takes before taken rest k → a.Takes before taken rest' k
  unique : ∀ before t r k t' r' k', a.Takes before t r k → a.Takes before t' r' k' → t ++ r = t' ++ r' → t = t' ∧ k = k'
  filled : ∀ before rest k, ¬ a.Takes before [] rest k
  least : ∀ before t r k before' x t' y r' k', a.Takes before t r k → a.Takes before' t' r' k' → t = x ++ (t' ++ y) → y = []

namespace Definite

variable {a : Pattern} (definite : Definite a)

include definite

theorem start_lt_stop {s pre taken rest : Text} {m : Match} {k : Texts} (found : a.Found s m pre taken rest k) :
    m.start < m.stop := by
  have filled : taken ≠ [] := by
    rintro rfl
    exact definite.filled _ _ _ found.way
  have long := List.length_pos_iff.2 filled
  rw [found.start, found.stop]
  omega

-- A match that ends in the front is found there.
theorem match_kept {pre u v : Text} {m : Match} (found : a.matchAt ⟨pre.getLast?, u ++ v, pre.length⟩ = some m)
    (ends : m.stop ≤ pre.length + u.length) (slot : Nat) : ∃ n, a.matchAt ⟨pre.getLast?, u, pre.length⟩ = some n ∧
      n.start = m.start ∧ n.stop = m.stop ∧ n.captured slot = m.captured slot := by
  obtain ⟨taken, rest, k, place⟩ := match_found found
  have split : u ++ v = taken ++ rest := List.append_cancel_left place.whole
  -- The text of the match lies in the front, so that it is one there too.
  obtain ⟨w, rfl⟩ : taken <+: u := by
    rw [place.stop] at ends
    exact List.prefix_of_prefix_length_le ⟨rest, split.symm⟩ (List.prefix_append u v) (by omega)
  have way := definite.free _ _ _ w _ place.way
  obtain ⟨n, done⟩ := match_done way
  obtain ⟨taken', rest', k', place'⟩ := match_found done
  obtain ⟨rfl, rfl⟩ := definite.unique _ _ _ _ _ _ _ way place'.way (List.append_cancel_left place'.whole)
  exact ⟨n, done, place'.start.trans place.start.symm, place'.stop.trans place.stop.symm,
    (place'.captured slot).trans (place.captured slot).symm⟩

theorem match_absent {pre u v : Text} (absent : a.matchAt ⟨pre.getLast?, u ++ v, pre.length⟩ = none) :
    a.matchAt ⟨pre.getLast?, u, pre.length⟩ = none := by
  cases found : a.matchAt ⟨pre.getLast?, u, pre.length⟩ with
  | none => rfl
  | some m =>
    obtain ⟨taken, rest, k, place⟩ := match_found found
    obtain ⟨n, done⟩ := match_done (definite.free _ _ _ (rest ++ v) _ place.way)
    obtain rfl : u = taken ++ rest := List.append_cancel_left place.whole
    rw [List.append_assoc, done] at absent
    cases absent

-- Where a match goes beyond the front nothing is found from its beginning to the end of the front.
theorem front_empty {pre u v : Text} {m : Match} (found : a.matchAt ⟨pre.getLast?, u ++ v, pre.length⟩ = some m)
    (beyond : pre.length + u.length < m.stop) : a.matchesFrom pre.getLast? pre.length 0 u = [] := by
  obtain ⟨taken, rest, k, place⟩ := match_found found
  have split : u ++ v = taken ++ rest := List.append_cancel_left place.whole
  obtain ⟨w, rfl⟩ : u <+: taken := by
    rw [place.stop] at beyond
    exact List.prefix_of_prefix_length_le ⟨v, split⟩ (List.prefix_append taken rest) (by omega)
  have more : w ≠ [] := by
    rintro rfl
    rw [place.stop, List.append_nil] at beyond
    exact Nat.lt_irrefl _ beyond
  rw [List.eq_nil_iff_forall_not_mem]
  intro n member
  -- What was found there would be a part of the match, so it would end with it.
  obtain ⟨x, taken', rest', k', -, place'⟩ := match_from_found pre u 0 member
  have whole : pre ++ u = pre ++ (x ++ (taken' ++ rest')) := by rw [← List.append_assoc, ← place'.whole]
  have inner : u = x ++ (taken' ++ rest') := List.append_cancel_left whole
  refine more (List.append_eq_nil_iff.1 (definite.least _ _ _ _ _ x taken' (rest' ++ w) _ _ place.way place'.way ?_)).2
  rw [inner]
  simp only [List.append_assoc]

theorem nothing_matched (pre : Text) : a.matchesFrom pre.getLast? pre.length 0 [] = [] := by
  rw [List.eq_nil_iff_forall_not_mem]
  intro m member
  obtain ⟨taken, rest, k, found⟩ := match_found (Option.mem_toList.1 member)
  obtain ⟨rfl, -⟩ := List.append_eq_nil_iff.1 (List.append_cancel_left found.whole).symm
  exact definite.filled _ _ _ found.way

theorem none_ends_here (pre s : Text) :
    ((a.matchesFrom pre.getLast? pre.length 0 s).filter fun m => m.stop ≤ pre.length) = [] := by
  refine List.filter_eq_nil_iff.2 fun m member => ?_
  obtain ⟨before, taken, rest, k, -, found⟩ := match_from_found pre s 0 member
  have start := match_from_start pre s 0 member
  have stop := definite.start_lt_stop found
  simp only [decide_eq_true_eq]
  omega

-- Nothing that is found ends before what is found at the first place.
theorem first_ends_first {pre s : Text} {m : Match} (found : a.matchAt ⟨pre.getLast?, s, pre.length⟩ = some m) :
    ∀ n ∈ a.matchesFrom pre.getLast? pre.length 0 s, m.stop ≤ n.stop := by
  intro n member
  have ordered := @matches_from_ordered a pre s 0
  obtain ⟨before, taken, rest, k, -, own⟩ := match_from_found pre s 0 member
  cases s with
  | nil =>
    rw [definite.nothing_matched] at member
    cases member
  | cons c r =>
    rw [matchesFrom, found] at ordered member
    rcases List.mem_cons.1 member with rfl | behind
    · exact Nat.le_refl _
    · have apart := (List.pairwise_cons.1 ordered).1 n behind
      exact Nat.le_trans apart (Nat.le_of_lt (definite.start_lt_stop own))

theorem matches_from_front (slot : Nat) (pre u v : Text) (skip : Nat) (within : skip ≤ u.length) :
    (a.matchesFrom pre.getLast? pre.length skip u).map (Match.tell slot) =
      ((a.matchesFrom pre.getLast? pre.length skip (u ++ v)).filter fun m => m.stop ≤ pre.length + u.length).map
        (Match.tell slot) := by
  induction u generalizing pre skip with
  | nil =>
    obtain rfl := Nat.le_zero.1 within
    rw [definite.nothing_matched, List.nil_append, List.length_nil, Nat.add_zero, definite.none_ends_here]
  | cons c r ih =>
    have place : pre.length + (c :: r).length = (pre ++ [c]).length + r.length := by
      rw [length_append_one, List.length_cons]
      omega
    have later (skip : Nat) (within : skip ≤ r.length) :
        (a.matchesFrom (some c) (pre.length + 1) skip r).map (Match.tell slot) =
          ((a.matchesFrom (some c) (pre.length + 1) skip (r ++ v)).filter fun m =>
            m.stop ≤ pre.length + (c :: r).length).map (Match.tell slot) := by
      rw [place, ← last_append_one pre c, ← length_append_one pre c]
      exact ih (pre ++ [c]) skip within
    cases skip with
    | succ skip => exact later skip (Nat.le_of_succ_le_succ within)
    | zero =>
      cases found : a.matchAt ⟨pre.getLast?, c :: r ++ v, pre.length⟩ with
      | none =>
        have absent := definite.match_absent found
        rw [List.cons_append] at found
        rw [List.cons_append, matchesFrom, matchesFrom, found, absent]
        exact later 0 (Nat.zero_le _)
      | some m =>
        obtain ⟨taken, rest, k, held⟩ := match_found found
        by_cases ends : m.stop ≤ pre.length + (c :: r).length
        · obtain ⟨n, kept, start, stop, text⟩ := definite.match_kept found ends slot
          have same : Match.tell slot n = Match.tell slot m := by rw [Match.tell, Match.tell, start, stop, text]
          rw [List.cons_append] at found
          rw [List.cons_append, matchesFrom, matchesFrom, found, kept]
          dsimp only
          rw [List.filter_cons_of_pos (by simpa using ends), List.map_cons, List.map_cons, start, stop, same,
            later _ (by rw [held.start]; rw [List.length_cons] at ends; omega)]
        · -- Nothing more is found in the front, and all that is found in the whole text ends behind it.
          rw [definite.front_empty found (Nat.lt_of_not_le ends)]
          rw [List.filter_eq_nil_iff.2 fun n member => by
            have behind := definite.first_ends_first found n member
            simp only [decide_eq_true_eq]
            omega]

-- What is found in the front of a text is what is found in the text and ends there.
theorem matches_in_front (slot : Nat) (s : Text) (i : Nat) : (a.allMatches (s.take i)).map (Match.tell slot) =
    ((a.allMatches s).filter fun m => m.stop ≤ i).map (Match.tell slot) := by
  have front := definite.matches_from_front slot [] (s.take i) (s.drop i) 0 (Nat.zero_le _)
  rw [List.take_append_drop] at front
  refine front.trans (congrArg _ (List.filter_congr fun m member => ?_))
  obtain ⟨pre, taken, rest, k, found⟩ := all_matches_found member
  have within : m.stop ≤ s.length := by
    rw [found.stop, found.whole]
    simp only [List.length_append]
    omega
  rw [List.length_take, List.length_nil, decide_eq_decide]
  omega

end Definite
end Pattern
end PipelineMigration
