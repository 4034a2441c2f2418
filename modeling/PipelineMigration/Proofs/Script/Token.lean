import PipelineMigration.Proofs.Script.Block
import PipelineMigration.Proofs.Script.Comment
set_option autoImplicit false

/- A script as tokens: a string literal is one token, and so is any other character. The closer of a bracket is the
   first closer token up to which as many brackets of its kind close as open, and what stands before the closer of a
   block is read as the same tokens on its own. -/
namespace PipelineMigration.Script

inductive Token where
  | literal (s : Text)
  | single (c : Char)
deriving DecidableEq

namespace Token

def text : Token → Text
  | literal s => s
  | single c => [c]

/-- The characters of a token outside literals, each at its place. -/
def code : Token → List (Option Char)
  | literal s => List.replicate s.length none
  | single c => [some c]

end Token

/-- The characters that tokens take up. -/
def spell (ts : List Token) : Text := ts.flatMap Token.text

def tokens : Text → List Token
  | [] => []
  | c :: r =>
    if Text.isQuote c then
      .literal ((c :: r).take (literalLength (c :: r))) :: tokens ((c :: r).drop (literalLength (c :: r)))
    else .single c :: tokens r
termination_by s => s.length
decreasing_by
  · exact drop_shorter (literalLength_pos c r) c r
  · exact Nat.lt_succ_self _

section Tokens

variable {c : Char} {r s : Text}

theorem tokens_literal (quote : Text.isQuote c = true) : tokens (c :: r) =
    .literal ((c :: r).take (literalLength (c :: r))) :: tokens ((c :: r).drop (literalLength (c :: r))) := by
  rw [tokens, if_pos quote]

theorem tokens_single (plain : Text.isQuote c = false) : tokens (c :: r) = .single c :: tokens r := by
  rw [tokens, if_neg (by simp [plain])]

theorem spell_tokens (s : Text) : spell (tokens s) = s := by
  unfold spell
  fun_induction tokens s with
  | case1 => rfl
  | case2 c r quote ih => rw [List.flatMap_cons, ih, Token.text, List.take_append_drop]
  | case3 c r plain ih => rw [List.flatMap_cons, ih, Token.text, List.singleton_append]

theorem spell_prefix {read ts : List Token} (front : read <+: ts) : spell read <+: spell ts := by
  obtain ⟨more, rfl⟩ := front
  refine ⟨spell more, ?_⟩
  rw [spell, spell, spell, List.flatMap_append]

theorem prefix_replaces {u v : Text} (front : u <+: v) : Replaces u v := by
  obtain ⟨more, rfl⟩ := front
  refine ⟨fun none => (List.append_eq_nil_iff.1 none).1, fun c first => .inr ?_⟩
  rw [List.head?_append, first]
  rfl

-- A part of a text that ends with a token is read as the same tokens on its own.
theorem tokens_spell {read : List Token} (front : read <+: tokens s) : tokens (spell read) = read := by
  fun_induction tokens s generalizing read with
  | case1 =>
    rw [List.prefix_nil.1 front]
    exact tokens.eq_1
  | case2 c r quote ih =>
    rcases List.prefix_cons_iff.1 front with rfl | ⟨later, rfl, behind⟩
    · exact tokens.eq_1
    · -- What follows the literal begins as it did, so the literal ends where it did.
      have begins := spell_prefix behind
      rw [spell_tokens] at begins
      obtain ⟨r', shape, kept, left⟩ := literal_again quote (prefix_replaces begins)
      have spelled : spell (.literal ((c :: r).take (literalLength (c :: r))) :: later) =
          (c :: r).take (literalLength (c :: r)) ++ spell later := rfl
      rw [spelled, shape, tokens_literal quote, kept, left, ih behind]
  | case3 c r plain ih =>
    rcases List.prefix_cons_iff.1 front with rfl | ⟨later, rfl, behind⟩
    · exact tokens.eq_1
    · have spelled : spell (.single c :: later) = c :: spell later := rfl
      rw [spelled, tokens_single (by simpa using plain), ih behind]

theorem code_from_past (skip : Nat) (s : Text) :
    codeFrom skip s = List.replicate (s.take skip).length none ++ codeFrom 0 (s.drop skip) := by
  induction skip generalizing s with
  | zero => rfl
  | succ skip ih => cases s with
    | nil => rfl
    | cons c r =>
      rw [codeFrom, ih, List.take_succ_cons, List.length_cons, List.replicate_succ, List.drop_succ_cons, List.cons_append]

-- The characters outside literals are the tokens that are one character.
theorem code_tokens (s : Text) : code s = (tokens s).flatMap Token.code := by
  fun_induction tokens s with
  | case1 => rfl
  | case2 c r quote ih =>
    obtain ⟨n, length⟩ := Nat.exists_eq_succ_of_ne_zero (Nat.pos_iff_ne_zero.1 (literalLength_pos c r))
    rw [List.flatMap_cons, ← ih, length]
    unfold code
    rw [codeFrom, if_pos quote, length, Nat.succ_sub_one, code_from_past]
    rfl
  | case3 c r plain ih =>
    rw [List.flatMap_cons, ← ih]
    unfold code
    rw [codeFrom, if_neg plain]
    rfl

end Tokens

section Search

/-- Of `depth` open brackets, and of those that open later, one at least stays open. -/
def StaysOpen (opener closer : Char) (depth : Nat) (ts : List Token) : Prop :=
  ∀ front, front <+: ts → front.count (.single closer) < depth + front.count (.single opener)

/-- What the search for the closer of `depth` open brackets tells of the tokens from `start` on. -/
def Tells (opener closer : Char) (depth : Nat) (ts : List Token) (start : Nat) : Option Nat → Prop
  | none => StaysOpen opener closer depth ts
  | some n => ∃ before after, ts = before ++ .single closer :: after ∧ StaysOpen opener closer depth before ∧
      depth + before.count (.single opener) = before.count (.single closer) + 1 ∧ n = start + (spell before).length

theorem count_cons_token (t u : Token) (front : List Token) : (t :: front).count u = [t].count u + front.count u := by
  rw [← List.singleton_append, List.count_append]

variable {opener closer : Char} {depth depth' start : Nat} {ts : List Token} {t : Token} {found : Option Nat}

theorem StaysOpen.cons (positive : 0 < depth) (step : depth' + [t].count (.single closer) = depth + [t].count (.single opener))
    (later : StaysOpen opener closer depth' ts) : StaysOpen opener closer depth (t :: ts) := by
  intro front begins
  rcases List.prefix_cons_iff.1 begins with rfl | ⟨rest, rfl, behind⟩
  · exact Nat.lt_add_right _ positive
  · have open_ := later rest behind
    have closers := count_cons_token t (.single closer) rest
    have openers := count_cons_token t (.single opener) rest
    omega

theorem Tells.cons (positive : 0 < depth) (step : depth' + [t].count (.single closer) = depth + [t].count (.single opener))
    (later : Tells opener closer depth' ts (start + t.text.length) found) : Tells opener closer depth (t :: ts) start found := by
  cases found with
  | none => exact later.cons positive step
  | some n =>
    obtain ⟨before, after, rfl, open_, even, rfl⟩ := later
    refine ⟨t :: before, after, rfl, open_.cons positive step, ?_, ?_⟩
    · have closers := count_cons_token t (.single closer) before
      have openers := count_cons_token t (.single opener) before
      omega
    · have spelled : spell (t :: before) = t.text ++ spell before := rfl
      rw [spelled, List.length_append, Nat.add_assoc]

theorem closer_past (k index : Nat) (r : List (Option Char)) :
    closerIndex opener closer index depth (List.replicate k none ++ r) = closerIndex opener closer (index + k) depth r := by
  induction k generalizing index with
  | zero => rfl
  | succ k ih =>
    rw [List.replicate_succ, List.cons_append, closerIndex, ih]
    congr 1
    omega

theorem closer_tells (apart : opener ≠ closer) (positive : 0 < depth) (ts : List Token) (start : Nat) :
    Tells opener closer depth ts start (closerIndex opener closer start depth (ts.flatMap Token.code)) := by
  -- Token by token, whatever is open and wherever the search stands; a literal changes neither count.
  induction ts generalizing depth start with
  | nil =>
    intro front begins
    rw [List.prefix_nil.1 begins]
    exact Nat.lt_add_right _ positive
  | cons t ts ih =>
    rw [List.flatMap_cons]
    cases t with
    | literal s =>
      rw [Token.code, closer_past]
      exact (ih positive (start + s.length)).cons positive rfl
    | single c =>
      rw [Token.code, List.singleton_append, closerIndex]
      by_cases opens : c = opener
      · rw [if_pos (beq_iff_eq.2 opens)]
        refine (ih (Nat.succ_pos depth) (start + 1)).cons positive ?_
        simp [opens, apart]
      · rw [if_neg (mt beq_iff_eq.1 opens)]
        by_cases closes : c = closer
        · rw [if_pos (beq_iff_eq.2 closes)]
          by_cases last : depth ≤ 1
          · -- The last open bracket is closed here, and nothing is read before its closer.
            rw [if_pos last]
            refine ⟨[], ts, by rw [closes]; rfl, fun front begins => ?_, by simp; omega, rfl⟩
            rw [List.prefix_nil.1 begins]
            exact Nat.lt_add_right _ positive
          · rw [if_neg last]
            refine (ih (by omega) (start + 1)).cons positive ?_
            simp [closes, Ne.symm apart]
            omega
        · rw [if_neg (mt beq_iff_eq.1 closes)]
          refine (ih positive (start + 1)).cons positive ?_
          simp [opens, closes]

end Search

section Brackets

theorem closer_of_apart {opener closer : Char} (kind : closerOf? opener = some closer) :
    opener ≠ closer ∧ Text.isQuote opener = false := by
  unfold closerOf? at kind
  split at kind
  · rename_i brace
    cases kind
    rw [beq_iff_eq.1 brace]
    decide
  · split at kind
    · rename_i round
      cases kind
      rw [beq_iff_eq.1 round]
      decide
    · split at kind
      · rename_i square
        cases kind
        rw [beq_iff_eq.1 square]
        decide
      · cases kind

variable {s : Text} {index : Nat} {opener closer : Char}

theorem bracket_tells (here : s[index]? = some opener) (kind : closerOf? opener = some closer) :
    tokens (s.drop index) = .single opener :: tokens (s.drop (index + 1)) ∧
    matchBracket s index = .ok ((enclosedLength opener closer (s.drop (index + 1))).map (index + 1 + ·)) ∧
      Tells opener closer 1 (tokens (s.drop (index + 1))) 0 (enclosedLength opener closer (s.drop (index + 1))) := by
  obtain ⟨apart, plain⟩ := closer_of_apart kind
  obtain ⟨bound, same⟩ := List.getElem?_eq_some_iff.1 here
  have split : s.drop index = opener :: s.drop (index + 1) := by rw [← same, ← List.drop_eq_getElem_cons bound]
  refine ⟨by rw [split, tokens_single plain], ?_, ?_⟩
  · unfold matchBracket
    rw [split]
    dsimp only
    rw [kind]
  · rw [enclosedLength, code_tokens]
    exact closer_tells apart Nat.one_pos _ 0

/-- Read up to a closer at which as many brackets of the kind have closed as have opened. -/
def IsClosed (opener closer : Char) (read : List Token) : Prop :=
  read.getLast? = some (.single closer) ∧ read.count (.single opener) = read.count (.single closer)

/-- The tokens up to the first such closer. -/
structure FirstClosed (opener closer : Char) (ts read : List Token) : Prop where
  front : read <+: ts
  closed : IsClosed opener closer read
  first : ∀ earlier, earlier <+: ts → IsClosed opener closer earlier → read <+: earlier

/-- Brackets that come in pairs: none closes before it opens, and all are closed at the end. -/
structure Paired (opener closer : Char) (ts : List Token) : Prop where
  opened : ∀ front, front <+: ts → front.count (.single closer) ≤ front.count (.single opener)
  even : ts.count (.single opener) = ts.count (.single closer)

theorem open_unclosed (apart : opener ≠ closer) {ts read : List Token} (open_ : StaysOpen opener closer 1 ts)
    (front : read <+: .single opener :: ts) : ¬ IsClosed opener closer read := by
  rintro ⟨last, even⟩
  rcases List.prefix_cons_iff.1 front with rfl | ⟨rest, rfl, behind⟩
  · cases last
  · have less := open_ rest behind
    rw [List.count_cons_self, List.count_cons_of_ne (by simpa using apart)] at even
    omega

theorem first_closed (apart : opener ≠ closer) {before : List Token} (open_ : StaysOpen opener closer 1 before)
    (after : List Token) (even : 1 + before.count (.single opener) = before.count (.single closer) + 1) :
    FirstClosed opener closer (.single opener :: (before ++ .single closer :: after))
      (.single opener :: before ++ [.single closer]) := by
  refine ⟨⟨after, by simp⟩, ⟨List.getLast?_concat, ?_⟩, fun earlier front closed => ?_⟩
  · simp [apart, Ne.symm apart]
    omega
  · have whole : .single opener :: before ++ [.single closer] <+: .single opener :: (before ++ .single closer :: after) :=
      ⟨after, by simp⟩
    rcases Nat.lt_or_ge earlier.length (.single opener :: before ++ [Token.single closer]).length with short | long
    · -- A shorter part leaves a bracket open.
      have within : earlier <+: .single opener :: before := by
        refine List.prefix_of_prefix_length_le front ⟨.single closer :: after, rfl⟩ ?_
        rw [List.length_append, List.length_singleton] at short
        exact Nat.le_of_lt_succ short
      exact absurd closed (open_unclosed apart open_ within)
    · exact List.prefix_of_prefix_length_le whole front long

theorem FirstClosed.unique {ts read read' : List Token} (closed : FirstClosed opener closer ts read)
    (closed' : FirstClosed opener closer ts read') : read = read' :=
  (closed.first read' closed'.front closed'.closed).eq_of_length_le
    (closed'.first read closed.front closed.closed).length_le

theorem match_tells (here : s[index]? = some opener) (kind : closerOf? opener = some closer) :
    (matchBracket s index = .ok none ∧ ∀ read, read <+: tokens (s.drop index) → ¬ IsClosed opener closer read) ∨
    ∃ before, matchBracket s index = .ok (some (index + (spell before).length)) ∧
      FirstClosed opener closer (tokens (s.drop index)) (before ++ [.single closer]) := by
  obtain ⟨apart, -⟩ := closer_of_apart kind
  obtain ⟨whole, matched, told⟩ := bracket_tells here kind
  rw [whole, matched]
  cases found : enclosedLength opener closer (s.drop (index + 1)) with
  | none =>
    rw [found] at told
    exact .inl ⟨rfl, fun read front => open_unclosed apart told front⟩
  | some n =>
    rw [found] at told
    obtain ⟨before, after, same, open_, even, rfl⟩ := told
    rw [same]
    refine .inr ⟨.single opener :: before, ?_, first_closed apart open_ after even⟩
    have spelled : spell (.single opener :: before) = [opener] ++ spell before := rfl
    rw [Option.map_some, spelled, List.length_append, List.length_singleton, Nat.zero_add, Nat.add_assoc]

theorem match_found (here : s[index]? = some opener) (kind : closerOf? opener = some closer) (p : Nat) :
    matchBracket s index = .ok (some p) ↔ ∃ before,
      FirstClosed opener closer (tokens (s.drop index)) (before ++ [.single closer]) ∧
      p = index + (spell before).length := by
  rcases match_tells here kind with ⟨missed, unclosed⟩ | ⟨before, found, closed⟩
  · rw [missed]
    exact iff_of_false nofun fun ⟨_, closed, _⟩ => unclosed _ closed.front closed.closed
  · rw [found]
    constructor
    · intro told
      cases told
      exact ⟨before, closed, rfl⟩
    · rintro ⟨other, closed', rfl⟩
      rw [List.append_cancel_right (closed.unique closed')]

theorem match_missed (here : s[index]? = some opener) (kind : closerOf? opener = some closer) :
    matchBracket s index = .ok none ↔
      ∀ read, read <+: tokens (s.drop index) → ¬ IsClosed opener closer read := by
  rcases match_tells here kind with ⟨missed, unclosed⟩ | ⟨before, found, closed⟩
  · exact iff_of_true missed unclosed
  · rw [found]
    exact iff_of_false nofun fun none => none _ closed.front closed.closed

-- What is read of a block up to its closer: its body, whose braces come in pairs.
theorem block_read {keyword : Text} {b : Block} (listed : b ∈ blocks keyword s) :
    0 < b.offset ∧ s[b.offset - 1]? = some '\x7b' ∧
      (matchBracket s (b.offset - 1) = .ok none ∧ b.body = s.drop b.offset ∨
       matchBracket s (b.offset - 1) = .ok (some (b.offset + b.body.length)) ∧ ∃ after,
        s.drop b.offset = b.body ++ '\x7d' :: spell after ∧
        tokens (s.drop b.offset) = tokens b.body ++ .single '\x7d' :: after ∧ Paired '\x7b' '\x7d' (tokens b.body)) := by
  obtain ⟨u, v, rfl, rfl⟩ := listed_placed listed
  have here : (u ++ '\x7b' :: v)[u.length]? = some '\x7b' := by simp
  have behind : (u ++ '\x7b' :: v).drop (u.length + 1) = v := by simp
  refine ⟨Nat.succ_pos _, here, ?_⟩
  have kind : closerOf? '\x7b' = some '\x7d' := by decide
  obtain ⟨-, matched, told⟩ := bracket_tells here kind
  rw [behind] at matched told ⊢
  dsimp only
  rw [Nat.add_sub_cancel, matched]
  cases found : enclosedLength '\x7b' '\x7d' v with
  | none =>
    refine .inl ⟨rfl, ?_⟩
    unfold enclosed
    rw [found]
  | some n =>
    rw [found] at told
    obtain ⟨before, after, same, open_, even, rfl⟩ := told
    have text : v = spell before ++ '\x7d' :: spell after := by
      rw [← spell_tokens v, same, spell, List.flatMap_append, List.flatMap_cons]
      rfl
    have body : enclosed '\x7b' '\x7d' v = spell before := by
      unfold enclosed
      rw [found]
      dsimp only
      rw [Nat.zero_add, text, List.take_left]
    have read : tokens (spell before) = before := tokens_spell (s := v) ⟨.single '\x7d' :: after, same.symm⟩
    rw [body, read]
    refine .inr ⟨by simp, after, text, same, ?_, by omega⟩
    intro front begins
    have := open_ front begins
    omega

/-- The search for the closer of a bracket tells the first closer token at which as many brackets of the kind have
    closed as have opened, and none where there is none. So the body of a block that is closed ends at a brace, and the
    braces in it come in pairs; one that is not closed goes up to the end. -/
theorem closer_first (s : Text) :
    (∀ index opener closer, s[index]? = some opener → closerOf? opener = some closer →
      (∀ p, matchBracket s index = .ok (some p) ↔ ∃ before,
        FirstClosed opener closer (tokens (s.drop index)) (before ++ [.single closer]) ∧
        p = index + (spell before).length) ∧
      (matchBracket s index = .ok none ↔
        ∀ read, read <+: tokens (s.drop index) → ¬ IsClosed opener closer read)) ∧
    ∀ keyword, ∀ b ∈ blocks keyword s, ∃ close, matchBracket s (b.offset - 1) = .ok close ∧
      (close = none → b.body = s.drop b.offset) ∧
      ∀ p, close = some p → p = b.offset + b.body.length ∧ b.body = (s.drop b.offset).take b.body.length ∧
        s[b.offset + b.body.length]? = some '\x7d' ∧
        (∃ after, tokens (s.drop b.offset) = tokens b.body ++ .single '\x7d' :: after) ∧
        Paired '\x7b' '\x7d' (tokens b.body) := by
  refine ⟨fun index opener closer here kind => ⟨match_found here kind, match_missed here kind⟩, fun keyword b listed => ?_⟩
  obtain ⟨-, -, ⟨unclosed, rest⟩ | ⟨closed, after, text, read, paired⟩⟩ := block_read listed
  · exact ⟨none, unclosed, fun _ => rest, nofun⟩
  · refine ⟨some (b.offset + b.body.length), closed, nofun, fun p same => ?_⟩
    obtain rfl := Option.some.inj same
    refine ⟨rfl, by rw [text, List.take_left], ?_, ⟨after, read⟩, paired⟩
    rw [← List.getElem?_drop, text, List.getElem?_append_right (Nat.le_refl _), Nat.sub_self]
    rfl

example : matchBracket "\x7b echo '\x7d' \x7d" 0 = .ok (some 11) := rfl

end Brackets
end PipelineMigration.Script
