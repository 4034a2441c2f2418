import PipelineMigration.Proofs.Pattern.Taken
import PipelineMigration.Proofs.Text.Occurrence
set_option autoImplicit false

/- A search goes over a text stretch by stretch. What it finds in one of them is told by the stretch and by the
   characters next to it, for patterns that begin with a word. -/
namespace PipelineMigration.Pattern

section Stretches

variable {a : Pattern} {Q : Match → Prop} {pre u v rest : Text}

/-- A search that comes to `u`, after `pre` and before `rest`, goes on behind it, and what it finds on its way is
    as told. -/
def Passes (a : Pattern) (Q : Match → Prop) (pre u rest : Text) : Prop :=
  ∃ ms, a.matchesFrom pre.getLast? pre.length 0 (u ++ rest) =
    ms ++ a.matchesFrom (pre ++ u).getLast? (pre ++ u).length 0 rest ∧ ∀ m ∈ ms, Q m

theorem passes_nothing : Passes a Q pre [] rest := ⟨[], by rw [List.append_nil]; rfl, fun _ none => nomatch none⟩

theorem Passes.append (first : Passes a Q pre u (v ++ rest)) (second : Passes a Q (pre ++ u) v rest) :
    Passes a Q pre (u ++ v) rest := by
  obtain ⟨ms, found, held⟩ := first
  obtain ⟨ns, more, kept⟩ := second
  refine ⟨ms ++ ns, ?_, fun m member => (List.mem_append.1 member).elim (held m) (kept m)⟩
  rw [List.append_assoc, found, more, List.append_assoc, List.append_assoc]

theorem Passes.mono {R : Match → Prop} (all : ∀ m, Q m → R m) (passed : Passes a Q pre u rest) :
    Passes a R pre u rest := by
  obtain ⟨ms, found, held⟩ := passed
  exact ⟨ms, found, fun m member => all m (held m member)⟩

theorem passes_one {c : Char} (unmatched : a.matchAt ⟨pre.getLast?, c :: rest, pre.length⟩ = none) :
    Passes a Q pre [c] rest := by
  refine ⟨[], ?_, fun _ none => nomatch none⟩
  rw [List.singleton_append, matchesFrom, unmatched, last_append_one, length_append_one]
  rfl

-- Where no match begins none is found.
theorem passes_unmatched (unmatched : ∀ x y, u = x ++ y → y ≠ [] →
    a.matchAt ⟨(pre ++ x).getLast?, y ++ rest, (pre ++ x).length⟩ = none) : Passes a Q pre u rest := by
  induction u generalizing pre with
  | nil => exact passes_nothing
  | cons c u ih =>
    have first : Passes a Q pre [c] (u ++ rest) := by
      refine passes_one ?_
      have here := unmatched [] (c :: u) rfl (List.cons_ne_nil c u)
      rwa [List.append_nil] at here
    refine first.append (ih fun x y whole filled => ?_)
    rw [List.append_assoc]
    exact unmatched (c :: x) y (congrArg (c :: ·) whole) filled

theorem matches_skipped : a.matchesFrom pre.getLast? pre.length u.length (u ++ rest) =
    a.matchesFrom (pre ++ u).getLast? (pre ++ u).length 0 rest := by
  induction u generalizing pre with
  | nil => rw [List.append_nil]; rfl
  | cons c u ih =>
    rw [List.cons_append, List.length_cons, matchesFrom, ← last_append_one pre c, ← length_append_one pre c, ih,
      List.append_assoc]
    rfl

-- A match is passed over as a whole.
theorem passes_match {m : Match} {k : Texts} (filled : u ≠ [])
    (found : a.matchAt ⟨pre.getLast?, u ++ rest, pre.length⟩ = some m) (place : Found a (pre ++ (u ++ rest)) m pre u rest k)
    (held : Q m) : Passes a Q pre u rest := by
  refine ⟨[m], ?_, fun n member => List.mem_singleton.1 member ▸ held⟩
  obtain ⟨c, u, rfl⟩ := List.exists_cons_of_ne_nil filled
  have length : m.stop - m.start - 1 = u.length := by
    rw [place.start, place.stop, List.length_cons]
    omega
  rw [List.cons_append, matchesFrom]
  rw [List.cons_append] at found
  rw [found]
  dsimp only
  rw [length, ← last_append_one pre c, ← length_append_one pre c, matches_skipped, List.append_assoc]
  rfl

theorem all_matches_passed {s : Text} (passed : Passes a Q [] s []) (ends : ∀ m ∈ a.matchesFrom s.getLast? s.length 0 [], Q m) :
    ∀ m ∈ a.allMatches s, Q m := by
  obtain ⟨ms, found, held⟩ := passed
  rw [List.append_nil] at found
  intro m member
  rw [show a.allMatches s = ms ++ _ from found] at member
  exact (List.mem_append.1 member).elim (held m) (ends m)

end Stretches

section Words

/-- Every match begins where a word begins, with this one. -/
structure Opens (a : Pattern) (word : Text) : Prop where
  filled : word ≠ []
  words : ∀ c ∈ word, Text.isWord c = true
  front : ∀ before taken rest k, a.Takes before taken rest k → before.any Text.isWord = false ∧ word <+: taken

variable {a b : Pattern} {Q : Match → Prop} {word pre u rest : Text}

theorem Opens.begins (opens : Opens a word) : ∃ c r, word = c :: r ∧ Text.isWord c = true := by
  obtain ⟨c, r, rfl⟩ := List.exists_cons_of_ne_nil opens.filled
  exact ⟨c, r, rfl, opens.words c List.mem_cons_self⟩

theorem opens_edge (filled : word ≠ []) (words : ∀ c ∈ word, Text.isWord c = true) :
    Opens (edge ++ exactly word) word := by
  refine ⟨filled, words, fun before taken rest k way => ?_⟩
  obtain ⟨c, r, rfl⟩ := List.exists_cons_of_ne_nil filled
  have letter : (c :: r).head?.any Text.isWord = true := words c List.mem_cons_self
  obtain ⟨outside, rfl, -⟩ := (edge_then letter).1 way
  exact ⟨outside, List.prefix_rfl⟩

theorem Opens.then (opens : Opens a word) : Opens (a ++ b) word := by
  refine ⟨opens.filled, opens.words, fun before taken rest k way => ?_⟩
  obtain ⟨u, v, l, m, first, -, rfl, -⟩ := then_takes.1 way
  obtain ⟨outside, front⟩ := opens.front _ _ _ _ first
  exact ⟨outside, front.trans (List.prefix_append u v)⟩

-- No match begins inside a word, or where another text stands.
theorem Opens.unmatched (opens : Opens a word) (apart : pre.getLast?.any Text.isWord = false → ¬ word <+: rest) :
    a.matchAt ⟨pre.getLast?, rest, pre.length⟩ = none := by
  cases found : a.matchAt ⟨pre.getLast?, rest, pre.length⟩ with
  | none => rfl
  | some m =>
    obtain ⟨taken, behind, k, place⟩ := match_found found
    obtain ⟨outside, front⟩ := opens.front _ _ _ _ place.way
    refine absurd ?_ (apart outside)
    rw [List.append_cancel_left place.whole]
    exact front.trans (List.prefix_append taken behind)

theorem Opens.unmatched_end (opens : Opens a word) : ∀ m ∈ a.matchesFrom pre.getLast? pre.length 0 [], Q m := by
  intro m member
  rw [matchesFrom, opens.unmatched fun _ begins => opens.filled (List.prefix_nil.1 begins)] at member
  cases member

-- Nothing begins between words.
theorem Opens.passes_gap (opens : Opens a word) (wordless : ∀ c ∈ u, Text.isWord c = false) : Passes a Q pre u rest := by
  refine passes_unmatched fun x y whole filled => opens.unmatched fun _ begins => ?_
  obtain ⟨c, r, rfl, letter⟩ := opens.begins
  obtain ⟨d, y, rfl⟩ := List.exists_cons_of_ne_nil filled
  obtain ⟨rfl, -⟩ := List.cons_prefix_cons.1 begins
  rw [wordless c (whole ▸ List.mem_append_right x List.mem_cons_self)] at letter
  cases letter

theorem begins_word (words : ∀ c ∈ word, Text.isWord c = true) (ends : rest.head?.any Text.isWord = false)
    (begins : word <+: u ++ rest) : word <+: u := by
  obtain ⟨t, same⟩ := begins
  rcases List.append_eq_append_iff.1 same with ⟨v, rfl, -⟩ | ⟨v, rfl, behind⟩
  · exact List.prefix_append word v
  · cases v with
    | nil => simp
    | cons c v =>
      rw [behind, List.cons_append, List.head?_cons, Option.any_some,
        words c (List.mem_append_right u List.mem_cons_self)] at ends
      cases ends

-- A match that begins in a word begins with it.
theorem Opens.passes_words (opens : Opens a word) (words : ∀ c ∈ u, Text.isWord c = true)
    (unmatched : a.matchAt ⟨pre.getLast?, u ++ rest, pre.length⟩ = none) : Passes a Q pre u rest := by
  refine passes_unmatched fun x y whole filled => ?_
  rcases List.eq_nil_or_concat x with rfl | ⟨x, c, rfl⟩
  · obtain rfl : u = y := whole
    rwa [List.append_nil]
  · refine opens.unmatched fun outside => ?_
    rw [List.concat_eq_append, ← List.append_assoc, last_append_one, Option.any_some,
      words c (by rw [whole]; simp)] at outside
    cases outside

-- Nothing begins in a word that does not begin so itself.
theorem Opens.passes_word (opens : Opens a word) (words : ∀ c ∈ u, Text.isWord c = true) (other : ¬ word <+: u)
    (ends : rest.head?.any Text.isWord = false) : Passes a Q pre u rest :=
  opens.passes_words words (opens.unmatched fun _ begins => other (begins_word opens.words ends begins))

end Words

section Literals

variable {a : Pattern} {Q : Match → Prop} {word pre value rest : Text} {mark : Char}

/-- No match begins in a text between quote marks, whatever follows. -/
def Quiet (a : Pattern) (value : Text) : Prop := ∀ x y, value = x ++ y → y ≠ [] → ∀ mark, Text.isQuote mark = true →
  ∀ rest index, a.matchAt ⟨lastOf (some mark) x, y ++ mark :: rest, index⟩ = none

theorem last_after_mark (x : Text) : (pre ++ [mark] ++ x).getLast? = lastOf (some mark) x := by
  rw [List.getLast?_append, last_append_one]
  rfl

-- Nothing begins in a text where its first word does not stand.
theorem Opens.quiet (opens : Opens a word) (absent : ¬ word <:+: value) : Quiet a value := by
  intro x y whole filled mark quote rest index
  cases found : a.matchAt ⟨lastOf (some mark) x, y ++ mark :: rest, index⟩ with
  | none => rfl
  | some m =>
    obtain ⟨taken, behind, spans, ahead, way, -⟩ := run_passed a _ [] _ m found
    obtain ⟨-, front⟩ := opens.front _ _ _ _ way
    have begins : word <+: y ++ mark :: rest := by
      rw [show y ++ mark :: rest = taken ++ behind from ahead]
      exact front.trans (List.prefix_append taken behind)
    have inside := begins_word opens.words (by simp [Text.quote_no_word quote]) begins
    exact absurd (inside.isInfix.trans (whole ▸ (List.suffix_append x y).isInfix)) absent

theorem Opens.passes_quoted (opens : Opens a word) (quote : Text.isQuote mark = true) (quiet : Quiet a value) :
    Passes a Q pre (mark :: (value ++ [mark])) rest := by
  have between : ∀ c ∈ [mark], Text.isWord c = false := by simpa using Text.quote_no_word quote
  have inside : Passes a Q (pre ++ [mark]) value ([mark] ++ rest) := by
    refine passes_unmatched fun x y whole filled => ?_
    rw [last_after_mark]
    exact quiet x y whole filled mark quote rest _
  exact (opens.passes_gap between).append (inside.append (opens.passes_gap between))

end Literals

end PipelineMigration.Pattern
