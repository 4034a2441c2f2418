import PipelineMigration.Credential.Reference
import PipelineMigration.Extraction
set_option autoImplicit false

/- Comments are taken out once and for all. What is left holds none: a literal of the script is a literal of
   what is left, at the same place and with the same end, and no two characters that come to stand together
   open a comment. So whatever is read from the script is read from what is left. -/
namespace PipelineMigration.Script

section Literals

variable {mark : Char} {s t : Text}

theorem quote_plain (quote : Text.isQuote mark = true) : mark ≠ '\\' ∧ mark ≠ ' ' := by
  constructor <;> rintro rfl <;> exact absurd quote (by decide)

theorem index_front (begins : t <+: s) : Text.indexOf? s t = some 0 := by
  unfold Text.indexOf?
  cases s with
  | nil =>
    obtain rfl := List.prefix_nil.1 begins
    rfl
  | cons c r =>
    rw [Text.splitOnce, if_pos (List.isPrefixOf_iff_prefix.2 begins)]
    rfl

theorem index_later {c : Char} (later : ¬ t <+: c :: s) :
    Text.indexOf? (c :: s) t = (Text.indexOf? s t).map (· + 1) := by
  unfold Text.indexOf?
  rw [Text.splitOnce, if_neg (mt List.isPrefixOf_iff_prefix.1 later), Option.map_map, Option.map_map]
  rfl

-- The first occurrence is found in any text that goes on after it.
theorem index_before (k : Nat) (found : Text.indexOf? s t = some k) (more : Text) :
    Text.indexOf? (s.take (k + t.length) ++ more) t = some k := by
  induction s generalizing k with
  | nil =>
    obtain ⟨⟨a, b⟩, split, rfl⟩ := Option.map_eq_some_iff.1 found
    have empty : [] = a ++ t ++ b := Text.splitOnce_eq split
    obtain ⟨rfl, rfl, -⟩ : a = [] ∧ t = [] ∧ b = [] := by simpa using empty.symm
    exact index_front List.nil_prefix
  | cons c r ih =>
    by_cases begins : t <+: c :: r
    · rw [index_front begins] at found
      obtain rfl := Option.some.inj found
      refine index_front ?_
      rw [Nat.zero_add, ← List.prefix_iff_eq_take.1 begins]
      exact List.prefix_append t more
    · rw [index_later begins] at found
      obtain ⟨k, later, rfl⟩ := Option.map_eq_some_iff.1 found
      have shape : (c :: r).take (k + 1 + t.length) ++ more = c :: (r.take (k + t.length) ++ more) := by
        rw [Nat.add_right_comm]
        rfl
      -- An occurrence at the front would lie within what was taken.
      have apart : ¬ t <+: c :: (r.take (k + t.length) ++ more) := by
        rw [← shape]
        intro front
        have bound := Text.indexOf?_add_length_le later
        have within : t <+: (c :: r).take (k + 1 + t.length) := by
          refine List.prefix_of_prefix_length_le front (List.prefix_append _ _) ?_
          rw [List.length_take, List.length_cons]
          omega
        exact begins (within.trans (List.take_prefix _ _))
      rw [shape, index_later apart, ih k later]
      rfl

theorem closes_plain {c : Char} (plain : c ≠ '\\') (r : Text) :
    closeLength mark (c :: r) = if c == mark || c == '\n' then 1 else 1 + closeLength mark r := by
  rw [closeLength.eq_def]
  split <;> simp_all

theorem closes_pos (c : Char) (r : Text) : 0 < closeLength mark (c :: r) := by
  by_cases escape : c = '\\'
  · subst escape
    cases r with
    | nil => exact Nat.one_pos
    | cons d r =>
      rw [closeLength]
      omega
  · rw [closes_plain escape]
    split <;> omega

-- Where a literal closes is decided by what stands up to there.
theorem closes_before (ends : s.drop (closeLength mark s) = [] → t = []) :
    closeLength mark (s.take (closeLength mark s) ++ t) = closeLength mark s := by
  fun_induction closeLength mark s with
  | case1 =>
    obtain rfl := ends rfl
    rfl
  | case2 =>
    obtain rfl := ends rfl
    rfl
  | case3 c r ih =>
    rw [Nat.add_comm 2] at ends ⊢
    exact congrArg (2 + ·) (ih ends) |>.trans (Nat.add_comm 2 _)
  | case4 c r single double closed =>
    have plain : c ≠ '\\' := by
      rintro rfl
      cases r with
      | nil => exact single rfl rfl
      | cons d r => exact double d r rfl rfl
    rw [List.take_succ_cons, List.take_zero, List.cons_append, closes_plain plain, if_pos closed]
  | case5 c r single double opened ih =>
    have plain : c ≠ '\\' := by
      rintro rfl
      cases r with
      | nil => exact single rfl rfl
      | cons d r => exact double d r rfl rfl
    rw [Nat.add_comm 1] at ends ⊢
    rw [List.take_succ_cons, List.cons_append, closes_plain plain, if_neg opened, ih ends, Nat.add_comm]

/-- A text in whose place another can stand: it ends where the other does and begins alike, or with a blank. -/
structure Replaces (t s : Text) : Prop where
  ends : s = [] → t = []
  begins : ∀ c, t.head? = some c → c = ' ' ∨ s.head? = some c

theorem tripled_length (u : Text) : literalLength (mark :: mark :: mark :: u) =
    3 + (Text.indexOf? u [mark, mark, mark]).elim u.length (· + 3) := by
  rw [literalLength, if_pos (by simp)]
  cases found : Text.indexOf? u [mark, mark, mark] <;> simp [found]

theorem single_length (single : ¬ [mark, mark] <+: s) : literalLength (mark :: s) = 1 + closeLength mark s := by
  rw [literalLength, if_neg (mt List.isPrefixOf_iff_prefix.1 single)]

theorem tripled_before (ends : (mark :: mark :: mark :: s).drop (literalLength (mark :: mark :: mark :: s)) = [] → t = []) :
    literalLength ((mark :: mark :: mark :: s).take (literalLength (mark :: mark :: mark :: s)) ++ t) =
      literalLength (mark :: mark :: mark :: s) := by
  rw [tripled_length] at ends ⊢
  rw [Nat.add_comm 3] at ends ⊢
  simp only [List.drop_succ_cons, List.take_succ_cons, List.cons_append] at ends ⊢
  rw [tripled_length, Nat.add_comm 3]
  cases found : Text.indexOf? s [mark, mark, mark] with
  | some k =>
    have same : Text.indexOf? (s.take (k + 3) ++ t) [mark, mark, mark] = some k := index_before k found t
    rw [Option.elim_some, same]
    rfl
  | none =>
    rw [found, Option.elim_none, List.drop_length] at ends
    rw [ends rfl, Option.elim_none, List.take_length, List.append_nil, found]
    rfl

-- When the mark closes the literal at once, a third one would follow it.
theorem single_before (quote : Text.isQuote mark = true) (single : ¬ [mark, mark] <+: s)
    (alike : Replaces t (s.drop (closeLength mark s))) : ¬ [mark, mark] <+: s.take (closeLength mark s) ++ t := by
  have plain := quote_plain quote
  rintro ⟨rest, whole⟩
  cases s with
  | nil =>
    obtain rfl := alike.ends rfl
    cases whole
  | cons c r =>
    by_cases same : c = mark
    · subst same
      have closed : closeLength c (c :: r) = 1 := by
        rw [closes_plain plain.1, if_pos (by simp)]
      rw [closed] at whole alike
      have next : t.head? = some c := (congrArg List.head? (List.cons.inj whole).2).symm
      rcases alike.begins c next with blank | third
      · exact plain.2 blank
      · obtain ⟨r', rfl⟩ := List.head?_eq_some_iff.1 third
        exact single ⟨r', rfl⟩
    · obtain ⟨n, length⟩ := Nat.exists_eq_succ_of_ne_zero (Nat.pos_iff_ne_zero.1 (@closes_pos mark c r))
      rw [length, List.take_succ_cons] at whole
      exact same (List.cons.inj whole).1.symm

-- A literal is the same one when another text follows that begins alike.
theorem literal_before (quote : Text.isQuote mark = true)
    (alike : Replaces t ((mark :: s).drop (literalLength (mark :: s)))) :
    literalLength ((mark :: s).take (literalLength (mark :: s)) ++ t) = literalLength (mark :: s) := by
  by_cases tripled : [mark, mark] <+: s
  · obtain ⟨body, rfl⟩ := tripled
    exact tripled_before alike.ends
  · rw [single_length tripled, Nat.add_comm 1] at alike ⊢
    rw [List.drop_succ_cons] at alike
    rw [List.take_succ_cons, List.cons_append, single_length (single_before quote tripled alike),
      closes_before alike.ends, Nat.add_comm]

-- A literal in front of such a text is read again, and the text is left.
theorem literal_again (quote : Text.isQuote mark = true)
    (alike : Replaces t ((mark :: s).drop (literalLength (mark :: s)))) :
    ∃ r, (mark :: s).take (literalLength (mark :: s)) ++ t = mark :: r ∧
      (mark :: r).take (literalLength (mark :: r)) = (mark :: s).take (literalLength (mark :: s)) ∧
      (mark :: r).drop (literalLength (mark :: r)) = t := by
  have same := literal_before quote alike
  obtain ⟨n, length⟩ := Nat.exists_eq_succ_of_ne_zero (Nat.pos_iff_ne_zero.1 (literalLength_pos mark s))
  have within : ((mark :: s).take (literalLength (mark :: s))).length = literalLength (mark :: s) :=
    List.length_take_of_le (literalLength_le (mark :: s))
  have shape : (mark :: s).take (literalLength (mark :: s)) ++ t = mark :: (s.take n ++ t) := by
    rw [length]
    rfl
  refine ⟨s.take n ++ t, shape, ?_⟩
  rw [← shape, same]
  exact ⟨List.take_left' within, List.drop_left' within⟩

-- What is left behind characters that are passed is shorter.
theorem drop_shorter {n : Nat} (positive : 0 < n) (c : Char) (r : Text) :
    ((c :: r).drop n).length < (c :: r).length := by
  rw [List.length_drop, List.length_cons]
  omega

end Literals

section Strip

/-- What is left of the characters that still belong to a comment or a literal. -/
def leftOver (blanking : Bool) (s : Text) : Text := s.map fun c => if blanking then blank c else c

theorem strip_from_split (blanking : Bool) (left : Nat) (s : Text) :
    stripFrom blanking left s = leftOver blanking (s.take left) ++ stripFrom false 0 (s.drop left) := by
  induction s generalizing left with
  | nil => cases left <;> rfl
  | cons c r ih => cases left with
    | zero =>
      change stripFrom blanking 0 (c :: r) = stripFrom false 0 (c :: r)
      rw [stripFrom, stripFrom]
    | succ left =>
      rw [stripFrom, ih]
      rfl

theorem strip_begins (s : Text) : Replaces (stripFrom false 0 s) s := by
  refine ⟨?_, fun c begins => ?_⟩
  · rintro rfl
    rfl
  · cases s with
    | nil => cases begins
    | cons d r =>
      rw [stripFrom] at begins
      split at begins
      · exact .inr begins
      · split at begins
        · exact .inl (Option.some.inj begins).symm
        · split at begins
          · exact .inl (Option.some.inj begins).symm
          · exact .inr begins

theorem strip_blanked (u s : Text) : stripFrom false 0 (leftOver true u ++ s) = leftOver true u ++ stripFrom false 0 s := by
  induction u with
  | nil => rfl
  | cons c u ih =>
    have kept (b : Char) (plain : b = ' ' ∨ b = '\n') (r : Text) :
        stripFrom false 0 (b :: r) = b :: stripFrom false 0 r := by
      rcases plain with rfl | rfl <;> rw [stripFrom] <;> simp [Text.isQuote]
    have here : leftOver true (c :: u) ++ s = blank c :: (leftOver true u ++ s) := rfl
    rw [here, kept, ih]
    · rfl
    · unfold blank
      split
      · exact .inr rfl
      · exact .inl rfl

theorem strip_literal {mark : Char} {r : Text} (quote : Text.isQuote mark = true) :
    stripFrom false 0 (mark :: r) = (mark :: r).take (literalLength (mark :: r)) ++
      stripFrom false 0 ((mark :: r).drop (literalLength (mark :: r))) := by
  obtain ⟨n, length⟩ := Nat.exists_eq_succ_of_ne_zero (Nat.pos_iff_ne_zero.1 (literalLength_pos mark r))
  rw [stripFrom, if_pos quote, strip_from_split, length]
  simp [leftOver]

theorem strip_comment (n : Nat) (r : Text) (positive : 0 < n) :
    ' ' :: stripFrom true (n - 1) r =
      leftOver true (('/' :: r).take n) ++ stripFrom false 0 (('/' :: r).drop n) := by
  obtain ⟨k, rfl⟩ := Nat.exists_eq_succ_of_ne_zero (Nat.pos_iff_ne_zero.1 positive)
  rw [strip_from_split]
  rfl

theorem line_comment_pos {c : Char} (slash : c = '/') (r : Text) : 0 < lineCommentLength (c :: r) := by
  subst slash
  exact Nat.succ_pos _

theorem block_comment_pos (c : Char) (r : Text) : 0 < blockCommentLength (c :: r) := by
  unfold blockCommentLength
  split
  · omega
  · exact Nat.succ_pos _

theorem strip_char {c : Char} {r : Text} (quote : Text.isQuote c = false)
    (slash : c = '/' → ∀ d ∈ r.head?, d ≠ '/' ∧ d ≠ '*') : stripComments (c :: r) = c :: stripComments r := by
  have apart (d : Char) (mark : d = '/' ∨ d = '*') : ¬ (c == '/' && r.head? == some d) = true := by
    intro opens
    obtain ⟨same, next⟩ := Bool.and_eq_true_iff.1 opens
    obtain ⟨line, block⟩ := slash (beq_iff_eq.1 same) d (beq_iff_eq.1 next)
    exact mark.elim line block
  unfold stripComments
  rw [stripFrom, if_neg (by simp [quote]), if_neg (apart '/' (.inl rfl)), if_neg (apart '*' (.inr rfl))]

-- A text begins with a literal, with a comment or with a character that opens neither.
theorem strip_cases (c : Char) (r : Text) : Text.isQuote c = true ∨
    (∃ n, 0 < n ∧ stripFrom false 0 (c :: r) = leftOver true ((c :: r).take n) ++ stripFrom false 0 ((c :: r).drop n)) ∨
    Text.isQuote c = false ∧ (c = '/' → ∀ d ∈ r.head?, d ≠ '/' ∧ d ≠ '*') := by
  by_cases quote : Text.isQuote c = true
  · exact .inl quote
  refine .inr ?_
  by_cases line : (c == '/' && r.head? == some '/') = true
  · obtain rfl : c = '/' := by simpa using (Bool.and_eq_true_iff.1 line).1
    refine .inl ⟨lineCommentLength ('/' :: r), line_comment_pos rfl r, ?_⟩
    rw [← strip_comment _ _ (line_comment_pos rfl r), stripFrom, if_neg quote, if_pos line]
  by_cases block : (c == '/' && r.head? == some '*') = true
  · obtain rfl : c = '/' := by simpa using (Bool.and_eq_true_iff.1 block).1
    refine .inl ⟨blockCommentLength ('/' :: r), block_comment_pos '/' r, ?_⟩
    rw [← strip_comment _ _ (block_comment_pos '/' r), stripFrom, if_neg quote, if_neg line, if_pos block]
  refine .inr ⟨Bool.eq_false_iff.2 quote, fun slash d next => ⟨?_, ?_⟩⟩
  · rintro rfl
    exact line (by rw [slash, Option.mem_def.1 next]; rfl)
  · rintro rfl
    exact block (by rw [slash, Option.mem_def.1 next]; rfl)

theorem strip_comments_settled (s : Text) : stripComments (stripComments s) = stripComments s := by
  unfold stripComments
  -- Along the text: a literal, a comment or one character is passed, and what follows is settled.
  induction length : s.length using Nat.strongRecOn generalizing s with
  | ind n ih =>
    subst length
    cases s with
    | nil => rfl
    | cons c r =>
      have later (n : Nat) (positive : 0 < n) :
          stripFrom false 0 (stripFrom false 0 ((c :: r).drop n)) = stripFrom false 0 ((c :: r).drop n) :=
        ih _ (drop_shorter positive c r) _ rfl
      rcases strip_cases c r with quote | ⟨n, positive, comment⟩ | ⟨quote, slash⟩
      · have rest := later _ (literalLength_pos c r)
        have alike := strip_begins ((c :: r).drop (literalLength (c :: r)))
        rw [strip_literal quote]
        generalize stripFrom false 0 ((c :: r).drop (literalLength (c :: r))) = t at rest alike
        obtain ⟨r', shape, kept, left⟩ := literal_again quote alike
        rw [shape, strip_literal quote, kept, left, rest, shape]
      · rw [comment, strip_blanked, later n positive]
      · have kept : stripFrom false 0 (c :: r) = c :: stripFrom false 0 r := strip_char quote slash
        have rest : stripFrom false 0 (stripFrom false 0 r) = stripFrom false 0 r := later 1 Nat.one_pos
        rw [kept]
        -- A slash is not joined by a character that was not next to it before.
        have apart : c = '/' → ∀ d ∈ (stripFrom false 0 r).head?, d ≠ '/' ∧ d ≠ '*' := by
          intro same d next
          rcases (strip_begins r).begins d next with rfl | before
          · decide
          · exact slash same d before
        have again : stripFrom false 0 (c :: stripFrom false 0 r) = c :: stripFrom false 0 (stripFrom false 0 r) :=
          strip_char quote apart
        rw [again, rest]

end Strip

/-- Taking comments out a second time changes nothing; so a script and what is left of it without comments
    have the same features, the same trust in them and the same credential references. -/
theorem comments_gone (excluded : List Text) (script : Text) :
    stripComments (stripComments script) = stripComments script ∧
      Extraction.of excluded (stripComments script) = Extraction.of excluded script ∧
      CredentialReference.scan (stripComments script) = CredentialReference.scan script := by
  have settled := strip_comments_settled script
  refine ⟨settled, ?_, ?_⟩
  · unfold Extraction.of
    rw [settled]
  · unfold CredentialReference.scan
    rw [settled]

end PipelineMigration.Script

/- Stretches of a script as comments are taken out of it: code, which stays as it is with its literals, and remarks,
   which are blanks and comments and leave nothing but blanks. -/
namespace PipelineMigration.Script

section Code

/-- Code before a text that follows: characters that open neither a literal nor a comment, and literals that end. -/
inductive Code (rest : Text) : Text → Prop where
  | done : Code rest []
  | char {c : Char} {u : Text} : Text.isQuote c = false → (c = '/' → ∀ d ∈ (u ++ rest).head?, d ≠ '/' ∧ d ≠ '*') →
      Code rest u → Code rest (c :: u)
  | literal {mark : Char} {body u : Text} : Text.isQuote mark = true →
      literalLength (mark :: (body ++ (u ++ rest))) = body.length + 1 → Code rest u → Code rest (mark :: (body ++ u))

-- Characters that open nothing.
theorem Code.plain {rest u v : Text} (plain : ∀ c ∈ u, Text.isQuote c = false ∧ c ≠ '/') (later : Code rest v) :
    Code rest (u ++ v) := by
  induction u with
  | nil => exact later
  | cons c u ih =>
    obtain ⟨⟨quote, slash⟩, others⟩ := List.forall_mem_cons.1 plain
    exact .char quote (fun same => absurd same slash) (ih others)

-- Code stays, and what follows it is read from its own beginning.
theorem Code.kept {rest u : Text} (code : Code rest u) : stripComments (u ++ rest) = u ++ stripComments rest := by
  induction code with
  | done => rfl
  | char quote slash _ ih => rw [List.cons_append, strip_char quote slash, ih, List.cons_append]
  | @literal mark body u quote ends _ ih =>
    have whole (t : Text) : mark :: (body ++ u) ++ t = mark :: (body ++ (u ++ t)) := by
      rw [List.cons_append, List.append_assoc]
    rw [whole, whole, stripComments, strip_literal quote, ends, List.take_succ_cons, List.drop_succ_cons, List.take_left,
      List.drop_left]
    exact congrArg (mark :: body ++ ·) ih

end Code

section Remarks

/-- Blanks and comments; a comment with no end of its own runs to a line feed or to the end of the text. -/
inductive Remarks : Text → Prop where
  | done : Remarks []
  | blank {c : Char} {u : Text} : Text.isBlank c = true → Remarks u → Remarks (c :: u)
  | line {body u : Text} : '\n' ∉ body → (∀ d ∈ u.head?, d = '\n') → Remarks u → Remarks ('/' :: '/' :: (body ++ u))
  | block {body u : Text} : ¬ "*/".toList <:+: body → Remarks u → Remarks ('/' :: '*' :: (body ++ ('*' :: '/' :: u)))

/-- A stretch to which no part of a line belongs that goes on behind it. -/
def EndsLine (u rest : Text) : Prop := rest = [] ∨ ∀ c ∈ u.getLast?, c = '\n'

theorem EndsLine.later {a u rest : Text} (ends : EndsLine (a ++ u) rest) : EndsLine u rest := by
  refine ends.imp_right fun last c member => last c ?_
  rw [List.getLast?_append, Option.mem_def.1 member]
  rfl

theorem left_over_blank (u : Text) : ∀ c ∈ leftOver true u, Text.isBlank c = true := by
  refine List.forall_mem_map.2 fun c _ => ?_
  have either : blank c = '\n' ∨ blank c = ' ' := by
    unfold blank
    split
    · exact .inl rfl
    · exact .inr rfl
  rcases either with feed | space
  · rw [if_pos rfl, feed]
    rfl
  · rw [if_pos rfl, space]
    rfl

theorem strip_line {body rest : Text} (within : '\n' ∉ body) (next : ∀ d ∈ rest.head?, d = '\n') :
    stripComments ('/' :: '/' :: (body ++ rest)) = leftOver true ('/' :: '/' :: body) ++ stripComments rest := by
  have stops : rest.takeWhile (· != '\n') = [] := by
    cases rest with
    | nil => rfl
    | cons d r => rw [next d rfl]; rfl
  have length : lineCommentLength ('/' :: '/' :: (body ++ rest)) = body.length + 2 := by
    unfold lineCommentLength
    rw [List.takeWhile_cons_of_pos rfl, List.takeWhile_cons_of_pos rfl, List.takeWhile_append_of_pos, stops, List.append_nil]
    · rfl
    · exact fun c member => bne_iff_ne.2 fun same => within (same ▸ member)
  have comment := strip_comment (lineCommentLength ('/' :: '/' :: (body ++ rest))) ('/' :: (body ++ rest)) (by omega)
  have opens : stripComments ('/' :: '/' :: (body ++ rest)) =
      ' ' :: stripFrom true (lineCommentLength ('/' :: '/' :: (body ++ rest)) - 1) ('/' :: (body ++ rest)) := rfl
  rw [opens, comment, length]
  simp only [List.take_succ_cons, List.drop_succ_cons, List.take_left, List.drop_left]
  rfl

theorem comment_ends {body : Text} (open_ : ¬ "*/".toList <:+: body) :
    Text.indexOf? (body ++ "*/".toList) "*/" = some body.length := by
  induction body with
  | nil => rfl
  | cons c r ih =>
    have apart : ¬ "*/".toList <+: c :: (r ++ "*/".toList) := by
      rintro ⟨more, whole⟩
      obtain ⟨rfl, next⟩ := List.cons.inj whole
      cases r with
      | nil => exact absurd (List.cons.inj next).1 (by decide)
      | cons d r =>
        obtain ⟨rfl, -⟩ := List.cons.inj next
        exact open_ ⟨[], r, rfl⟩
    rw [List.cons_append, index_later apart, ih fun inside => open_ (List.infix_cons inside)]
    rfl

theorem strip_block {body rest : Text} (open_ : ¬ "*/".toList <:+: body) :
    stripComments ('/' :: '*' :: (body ++ ('*' :: '/' :: rest))) =
      leftOver true ('/' :: '*' :: (body ++ "*/".toList)) ++ stripComments rest := by
  have ends : Text.indexOf? (body ++ ('*' :: '/' :: rest)) "*/" = some body.length := by
    have found := index_before body.length (comment_ends open_) rest
    have whole : body.length + ("*/" : Text).length = (body ++ "*/".toList).length := by simp
    rw [whole, List.take_length, List.append_assoc] at found
    exact found
  have length : blockCommentLength ('/' :: '*' :: (body ++ ('*' :: '/' :: rest))) = body.length + 4 := by
    unfold blockCommentLength
    rw [List.drop_succ_cons, List.drop_succ_cons, List.drop_zero, ends]
  have comment := strip_comment (blockCommentLength ('/' :: '*' :: (body ++ ('*' :: '/' :: rest))))
    ('*' :: (body ++ ('*' :: '/' :: rest))) (by omega)
  have opens : stripComments ('/' :: '*' :: (body ++ ('*' :: '/' :: rest))) =
      ' ' :: stripFrom true (blockCommentLength ('/' :: '*' :: (body ++ ('*' :: '/' :: rest))) - 1)
        ('*' :: (body ++ ('*' :: '/' :: rest))) := rfl
  have whole : '/' :: '*' :: (body ++ ('*' :: '/' :: rest)) = ('/' :: '*' :: (body ++ "*/".toList)) ++ rest := by simp
  have size : ('/' :: '*' :: (body ++ "*/".toList)).length = body.length + 4 := by simp
  rw [opens, comment, length, whole, ← size, List.take_left, List.drop_left]
  rfl

-- Remarks leave blanks, and what follows them is read from its own beginning.
theorem Remarks.gone {u : Text} (remarks : Remarks u) {rest : Text} (ends : EndsLine u rest) :
    stripComments (u ++ rest) = stripComments u ++ stripComments rest ∧
      ∀ c ∈ stripComments u, Text.isBlank c = true := by
  induction remarks with
  | done => exact ⟨rfl, List.forall_mem_nil _⟩
  | @blank c u blank _ ih =>
    obtain ⟨apart, bare⟩ := ih (ends.later (a := [c]))
    have quote : Text.isQuote c = false := Bool.eq_false_iff.2 fun mark => by
      rcases Bool.or_eq_true_iff.1 mark with same | same <;> rw [beq_iff_eq.1 same] at blank <;> cases blank
    have slash : c ≠ '/' := by
      rintro rfl
      cases blank
    have kept (r : Text) : stripComments (c :: r) = c :: stripComments r := strip_char quote fun same => absurd same slash
    rw [List.cons_append, kept, kept, apart]
    exact ⟨rfl, List.forall_mem_cons.2 ⟨blank, bare⟩⟩
  | @line body u within next _ ih =>
    obtain ⟨apart, bare⟩ := ih (ends.later (a := '/' :: '/' :: body))
    have follows : ∀ d ∈ (u ++ rest).head?, d = '\n' := by
      cases u with
      | cons d u => exact next
      | nil =>
        rcases ends with rfl | last
        · exact next
        · have own : ('/' :: '/' :: body).getLast (List.cons_ne_nil _ _) = '\n' := last _ (by simp [List.getLast?_eq_some_getLast])
          have member : '\n' ∈ '/' :: '/' :: body := own ▸ List.getLast_mem _
          exact absurd (by simpa using member) within
    have whole : '/' :: '/' :: (body ++ u) ++ rest = '/' :: '/' :: (body ++ (u ++ rest)) := by simp
    rw [whole, strip_line within follows, strip_line within next, apart, List.append_assoc]
    exact ⟨rfl, List.forall_mem_append.2 ⟨left_over_blank _, bare⟩⟩
  | @block body u open_ _ ih =>
    have own : '/' :: '*' :: (body ++ ('*' :: '/' :: u)) = ('/' :: '*' :: (body ++ "*/".toList)) ++ u := by simp
    rw [own] at ends
    obtain ⟨apart, bare⟩ := ih ends.later
    have whole : '/' :: '*' :: (body ++ ('*' :: '/' :: u)) ++ rest = '/' :: '*' :: (body ++ ('*' :: '/' :: (u ++ rest))) := by
      simp
    rw [whole, strip_block open_, strip_block open_, apart, List.append_assoc]
    exact ⟨rfl, List.forall_mem_append.2 ⟨left_over_blank _, bare⟩⟩

-- A character becomes one character, a line feed itself.
theorem strip_from_cons (blanking : Bool) (left : Nat) (c : Char) (r : Text) : ∃ d blanking' left',
    stripFrom blanking left (c :: r) = d :: stripFrom blanking' left' r ∧ (c = '\n' → d = '\n') := by
  cases left with
  | succ left =>
    refine ⟨_, blanking, left, rfl, ?_⟩
    rintro rfl
    cases blanking <;> rfl
  | zero =>
    rw [stripFrom]
    by_cases quote : Text.isQuote c = true
    · rw [if_pos quote]
      exact ⟨c, _, _, rfl, id⟩
    · rw [if_neg quote]
      have comment {d : Char} (opens : (c == '/' && r.head? == some d) = true) : c ≠ '\n' := by
        rw [beq_iff_eq.1 (Bool.and_eq_true_iff.1 opens).1]
        decide
      split
      · rename_i opens
        exact ⟨' ', _, _, rfl, fun same => absurd same (comment opens)⟩
      · split
        · rename_i opens
          exact ⟨' ', _, _, rfl, fun same => absurd same (comment opens)⟩
        · exact ⟨c, _, _, rfl, id⟩

theorem strip_from_last (blanking : Bool) (left : Nat) {u : Text} (last : ∀ c ∈ u.getLast?, c = '\n') :
    ∀ c ∈ (stripFrom blanking left u).getLast?, c = '\n' := by
  induction u generalizing blanking left with
  | nil => cases left <;> exact last
  | cons c r ih =>
    obtain ⟨d, blanking', left', whole, feed⟩ := strip_from_cons blanking left c r
    rw [whole]
    cases r with
    | nil =>
      have ends : stripFrom blanking' left' [] = [] := by cases left' <;> rfl
      intro x member
      rw [ends] at member
      obtain rfl : d = x := Option.some.inj member
      exact feed (last c rfl)
    | cons e r =>
      have long : stripFrom blanking' left' (e :: r) ≠ [] := fun none =>
        absurd (congrArg List.length none) (by simp [length_stripFrom])
      obtain ⟨f, w, later⟩ := List.exists_cons_of_ne_nil long
      have held := ih blanking' left' last
      rw [later] at held ⊢
      exact held

-- A stretch that ends its line ends it without its comments too.
theorem EndsLine.strip {u rest : Text} (ends : EndsLine u rest) : EndsLine (stripComments u) (stripComments rest) := by
  rcases ends with rfl | last
  · exact .inl rfl
  · exact .inr (strip_from_last false 0 last)

end Remarks

end PipelineMigration.Script
