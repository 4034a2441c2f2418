import PipelineMigration.Proofs.Yaml.Line
import PipelineMigration.Text.Quotation
set_option autoImplicit false

/- What a shell reads in a script. Its commands are read by the quoting of the POSIX shell. What a shell would not take
   as it stands is not read: expansions, patterns, and the signs that join commands. A text that is quoted is read as one
   word, which is that text.
   Assignments in double quotes of an expansion with a default are read as bash does. The default goes up to the first
   brace that is neither guarded by a backslash nor between single quotes, and single quotes stay in it. What begins more
   than a text is not read: another expansion, a substitution, a quotation. A text comes out as it is just when it is
   inert. -/
namespace PipelineMigration.Text.Shell

/-- Where the quotes leave the next character. -/
inductive Mode where
  | plain | escaped | single | double | doubleEscaped | remark
deriving DecidableEq

/-- What has been read: whole commands, words of the next one, and the beginning of a word. -/
structure Reading where
  mode : Mode
  word : Option Text
  words : List Text
  commands : List (List Text)
deriving DecidableEq

/-- Characters outside quotes that stand for more than themselves. -/
def specials : Text := "|&;<>()$\x60*?[]~!\x7b\x7d"

namespace Reading

def add (r : Reading) (c : Char) : Reading := { r with word := some (r.word.getD [] ++ [c]) }

/-- A quote begins a word, even an empty one. -/
def enter (r : Reading) (mode : Mode) : Reading := { r with mode, word := some (r.word.getD []) }

def endWord (r : Reading) : Reading := { r with word := none, words := r.words ++ r.word.toList }

def endCommand (r : Reading) : Reading :=
  let words := r.words ++ r.word.toList
  ⟨.plain, none, [], if words.isEmpty then r.commands else r.commands ++ [words]⟩

def stepPlain (r : Reading) (c : Char) : Option Reading :=
  if c == '\n' then some r.endCommand
  else if c == ' ' || c == '\t' then some r.endWord
  else if c == '\'' then some (r.enter .single)
  else if c == '"' then some (r.enter .double)
  else if c == '\\' then some { r with mode := .escaped }
  else if c == '#' && r.word.isNone then some { r with mode := .remark }
  else if specials.contains c then none
  else some (r.add c)

/-- A line break behind a backslash is no part of a word. -/
def step (r : Reading) (c : Char) : Option Reading :=
  match r.mode with
  | .plain => r.stepPlain c
  | .escaped => some { (if c == '\n' then r else r.add c) with mode := .plain }
  | .single => if c == '\'' then some { r with mode := .plain } else some (r.add c)
  | .double =>
    if c == '"' then some { r with mode := .plain }
    else if c == '\\' then some { r with mode := .doubleEscaped }
    else if c == '$' || c == '\x60' then none
    else some (r.add c)
  | .doubleEscaped =>
    let added := if c == '\n' then r
      else if c == '$' || c == '\x60' || c == '"' || c == '\\' then r.add c
      else (r.add '\\').add c
    some { added with mode := .double }
  | .remark => some (if c == '\n' then r.endCommand else r)

def run (r : Reading) (s : Text) : Option Reading := s.foldlM step r

def finish? (r : Reading) : Option (List (List Text)) :=
  match r.mode with
  | .plain | .remark => some r.endCommand.commands
  | _ => none

/-- Before a command, with those that are done. -/
def start (done : List (List Text)) : Reading := ⟨.plain, none, [], done⟩

end Reading

/-- The words of each command; nothing when the shell would take the text for more than words. -/
def commands (s : Text) : Option (List (List Text)) := (Reading.run (.start []) s).bind Reading.finish?

example : commands "set 'a b' \"c\\\"d\" e\\ f # g\n\n''" = some [["set", "a b", "c\"d", "e f"].map String.toList, [[]]] := by
  decide

open Reading

section Quoted

variable (words : List Text) (done : List (List Text))

theorem run_append (r : Reading) (s t : Text) : r.run (s ++ t) = (r.run s).bind fun r => r.run t := List.foldlM_append

theorem step_safe {c : Char} (safe : isSafe c = true) (word : Option Text) :
    step ⟨.plain, word, words, done⟩ c = some ⟨.plain, some (word.getD [] ++ [c]), words, done⟩ := by
  have other {d : Char} (unsafe_ : isSafe d = false) : (c == d) = false := beq_eq_false_iff_ne.2 fun same => by
    rw [same, unsafe_] at safe
    cases safe
  have ordinary : specials.contains c = false := by
    have none : specials.all (fun d => !isSafe d) = true := by decide
    refine Bool.eq_false_iff.2 fun special => ?_
    have unsafe_ := List.all_eq_true.1 none c (List.contains_iff_mem.1 special)
    rw [safe] at unsafe_
    cases unsafe_
  unfold step stepPlain
  simp only [other (show isSafe '\n' = false by decide), other (show isSafe ' ' = false by decide),
    other (show isSafe '\t' = false by decide), other (show isSafe '\'' = false by decide),
    other (show isSafe '"' = false by decide), other (show isSafe '\\' = false by decide),
    other (show isSafe '#' = false by decide), ordinary, Bool.false_or, Bool.false_and, Bool.false_eq_true, if_false]
  rfl

theorem run_safe {s : Text} (safe : s.all isSafe = true) (word : Text) :
    run ⟨.plain, some word, words, done⟩ s = some ⟨.plain, some (word ++ s), words, done⟩ := by
  induction s generalizing word with
  | nil => rw [List.append_nil]; rfl
  | cons c rest ih =>
    obtain ⟨first, others⟩ := Bool.and_eq_true_iff.1 safe
    rw [run, List.foldlM_cons, step_safe words done first]
    refine (ih others (word ++ [c])).trans ?_
    rw [List.append_assoc]
    rfl

-- In single quotes a character stands for itself, and a single quote is written outside of them.
theorem run_inside (s word : Text) : run ⟨.single, some word, words, done⟩
      (s.flatMap fun c => if c == '\'' then "'\"'\"'".toList else [c]) =
    some ⟨.single, some (word ++ s), words, done⟩ := by
  induction s generalizing word with
  | nil => rw [List.append_nil]; rfl
  | cons c rest ih =>
    have one : run ⟨.single, some word, words, done⟩ (if c == '\'' then "'\"'\"'".toList else [c]) =
        some ⟨.single, some (word ++ [c]), words, done⟩ := by
      by_cases quote : c = '\''
      · rw [if_pos (beq_iff_eq.2 quote), quote]
        rfl
      · rw [if_neg (by simpa using quote), run, List.foldlM_cons, step]
        dsimp only
        rw [if_neg (by simpa using quote)]
        rfl
    rw [List.flatMap_cons, run_append, one, Option.bind_some, ih, List.append_assoc]
    rfl

-- In double quotes most characters stand for themselves.
theorem run_double {s : Text} (ordinary : ∀ c ∈ s, c ∉ ['"', '\\', '$', '\x60']) (word : Text) :
    run ⟨.double, some word, words, done⟩ s = some ⟨.double, some (word ++ s), words, done⟩ := by
  induction s generalizing word with
  | nil => rw [List.append_nil]; rfl
  | cons c rest ih =>
    obtain ⟨first, others⟩ := List.forall_mem_cons.1 ordinary
    have one : step ⟨.double, some word, words, done⟩ c = some ⟨.double, some (word ++ [c]), words, done⟩ := by
      simp only [List.mem_cons, List.not_mem_nil, or_false, not_or] at first
      simp [step, add, first]
    rw [run, List.foldlM_cons, one]
    refine (ih others (word ++ [c])).trans ?_
    rw [List.append_assoc]
    rfl

-- A quoted text is read as one word.
theorem run_quote (s : Text) :
    run ⟨.plain, none, words, done⟩ (quote s) = some ⟨.plain, some s, words, done⟩ := by
  unfold quote
  split
  · rename_i none
    rw [List.isEmpty_iff.1 none]
    rfl
  · split
    · rename_i filled safe
      cases s with
      | nil => exact absurd rfl filled
      | cons c rest =>
        obtain ⟨first, others⟩ := Bool.and_eq_true_iff.1 safe
        rw [run, List.foldlM_cons, step_safe words done first]
        exact run_safe words done others [c]
    · have opened : run ⟨.plain, none, words, done⟩ ['\''] = some ⟨.single, some [], words, done⟩ := rfl
      rw [List.cons_append, ← List.singleton_append, run_append, opened, Option.bind_some, run_append, run_inside]
      rfl

theorem join_quoted (word next : Text) (rest : List Text) : join " " ((word :: next :: rest).map quote) =
    quote word ++ (" ".toList ++ join " " ((next :: rest).map quote)) := by
  rw [← List.append_assoc]
  exact List.intercalate_cons_cons

-- Quoted words with blanks between them are read as those words.
theorem run_words (word : Text) (rest : List Text) :
    ∃ last, run ⟨.plain, none, words, done⟩ (join " " ((word :: rest).map quote)) = some last ∧ last.mode = .plain ∧
      last.words ++ last.word.toList = words ++ word :: rest ∧ last.commands = done := by
  induction rest generalizing words word with
  | nil => exact ⟨_, (congrArg (run _) List.intercalate_singleton).trans (run_quote words done word), rfl, rfl, rfl⟩
  | cons next rest ih =>
    obtain ⟨last, read, plain, whole, same⟩ := ih (words ++ [word]) next
    refine ⟨last, ?_, plain, ?_, same⟩
    · rw [join_quoted, run_append, run_quote, Option.bind_some]
      exact read
    · rw [whole, List.append_assoc]
      rfl

end Quoted

/-- A text that is read as some commands, wherever a command may begin. -/
def Reads (s : Text) (read : List (List Text)) : Prop := ∀ done, run (start done) s = some (start (done ++ read))

section Commands

theorem Reads.append {s t : Text} {first second : List (List Text)} (front : Reads s first) (back : Reads t second) :
    Reads (s ++ t) (first ++ second) := by
  intro done
  rw [run_append, front, Option.bind_some, back, List.append_assoc]

theorem Reads.commands {s : Text} {read : List (List Text)} (reads : Reads s read) : commands s = some read := by
  rw [Shell.commands, reads, Option.bind_some, List.nil_append]
  rfl

theorem reads_nothing : Reads [] [] := fun done => by
  rw [List.append_nil]
  rfl

theorem reads_break : Reads ['\n'] [] := fun done => by
  rw [List.append_nil]
  rfl

theorem end_words {last : Reading} {word : Text} {rest : List Text}
    (whole : last.words ++ last.word.toList = word :: rest) :
    last.endCommand = start (last.commands ++ [word :: rest]) := by
  rw [endCommand, whole]
  rfl

theorem reads_words (word : Text) (rest : List Text) :
    Reads (join " " ((word :: rest).map quote) ++ ['\n']) [word :: rest] := by
  intro done
  obtain ⟨last, read, plain, whole, same⟩ := run_words [] done word rest
  rw [run_append, start, read, Option.bind_some, run, List.foldlM_cons, step, plain]
  exact congrArg some ((end_words whole).trans (congrArg (start <| · ++ [word :: rest]) same))

-- The last command of a text needs no line break.
theorem commands_words (word : Text) (rest : List Text) :
    commands (join " " ((word :: rest).map quote)) = some [word :: rest] := by
  obtain ⟨last, read, plain, whole, same⟩ := run_words [] [] word rest
  rw [commands, start, read, Option.bind_some, finish?, plain]
  dsimp only
  rw [end_words whole, same]
  rfl

theorem reads_remark {s : Text} (line : ∀ c ∈ s, c ≠ '\n') : Reads ('#' :: s ++ ['\n']) [] := by
  intro done
  have passed : run ⟨.remark, none, [], done⟩ s = some ⟨.remark, none, [], done⟩ := by
    induction s with
    | nil => rfl
    | cons c rest ih =>
      obtain ⟨here, others⟩ := List.forall_mem_cons.1 line
      rw [run, List.foldlM_cons, step]
      dsimp only
      rw [if_neg (by simpa using here)]
      exact ih others
  have opened : run (start done) ['#'] = some ⟨.remark, none, [], done⟩ := rfl
  rw [List.cons_append, ← List.singleton_append, run_append, opened, Option.bind_some, run_append, passed,
    List.append_nil]
  rfl

end Commands

/-- The next character, a line that goes on being joined to the next one. -/
def upcoming : Text → Option Char
  | [] => none
  | '\\' :: '\n' :: r => upcoming r
  | c :: _ => some c

def opensExpansion (c : Char) : Bool := isIdentifierRest c || "*@#?-$!\x7b([".toList.contains c

/-- Characters before which a backslash is taken away. -/
def isGuarded (c : Char) : Bool := "$\x60\"\\\x7d".toList.contains c

/-- Whether more than a character begins here. Single quotes shield from quotations and process substitutions. -/
def beginsMore (shielded : Bool) (c : Char) (rest : Text) : Bool :=
  c == '"' || c == '\x60' || c == '\x00' ||
    (c == '$' && (upcoming rest).any fun d => opensExpansion d || (!shielded && d == '\'')) ||
    ((c == '<' || c == '>') && !shielded && upcoming rest == some '(')

/-- The state behind a character; a single quote opens or closes. -/
def shieldAfter (shielded : Bool) (c : Char) : Bool := if c == '\'' then !shielded else shielded

def behind (front : Text) (read : Option (Text × Text)) : Option (Text × Text) :=
  read.map fun (value, rest) => (front ++ value, rest)

/-- A default up to the brace that closes its expansion, and what follows. -/
def readDefault (shielded : Bool) : Text → Option (Text × Text)
  | [] => none
  | '\\' :: '\n' :: r => readDefault shielded r
  | '\\' :: c :: r =>
    if isGuarded c then behind [c] (readDefault shielded r)
    else if shielded then behind ['\\'] (readDefault shielded (c :: r))
    else behind ['\\', c] (readDefault shielded r)
  | c :: r =>
    if c == '\x7d' && !shielded then some ([], r)
    else if beginsMore shielded c r then none
    else behind [c] (readDefault (shieldAfter shielded c) r)

/-- Texts in which nothing begins and nothing is taken away. -/
inductive Inert : Bool → Text → Prop
  | done : Inert false []
  | char {shielded : Bool} {c : Char} {s : Text} : c ≠ '\\' → (c = '\x7d' → shielded = true) →
      beginsMore shielded c s = false → Inert (shieldAfter shielded c) s → Inert shielded (c :: s)
  | pair {c : Char} {s : Text} : isGuarded c = false → c ≠ '\n' → Inert false s → Inert false ('\\' :: c :: s)
  | backslash {c : Char} {s : Text} : isGuarded c = false → c ≠ '\n' → Inert true (c :: s) → Inert true ('\\' :: c :: s)

section Reading

variable {shielded : Bool} {c : Char} {s r value rest : Text}

theorem upcoming_before (s rest : Text) :
    upcoming (s ++ '\x7d' :: rest) = some '\x7d' ∧ upcoming s = none ∨ upcoming (s ++ '\x7d' :: rest) = upcoming s := by
  fun_induction upcoming s with
  | case1 => exact .inl ⟨rfl, rfl⟩
  | case2 r ih => exact ih
  | case3 c r single =>
    refine .inr (upcoming.eq_3 c _ fun r' slash joined => ?_)
    cases r with
    | nil => cases joined
    | cons d r =>
      obtain ⟨rfl, -⟩ := List.cons.inj joined
      exact single r slash rfl

theorem begins_before (shielded : Bool) (c : Char) (s rest : Text) :
    beginsMore shielded c (s ++ '\x7d' :: rest) = beginsMore shielded c s := by
  have closing : (opensExpansion '\x7d' || (!shielded && '\x7d' == '\'')) = false := by cases shielded <;> decide
  unfold beginsMore
  rcases upcoming_before s rest with ⟨brace, none⟩ | same
  · rw [brace, none, Option.any_some, Option.any_none, closing]
    rfl
  · rw [same]

theorem read_plain (plain : c ≠ '\\') : readDefault shielded (c :: r) =
    if c == '\x7d' && !shielded then some ([], r)
    else if beginsMore shielded c r then none
    else behind [c] (readDefault (shieldAfter shielded c) r) :=
  readDefault.eq_4 shielded c r (fun _ slash _ => plain slash) fun _ _ slash _ => plain slash

theorem Inert.read (inert : Inert shielded s) (rest : Text) :
    readDefault shielded (s ++ '\x7d' :: rest) = some (s, rest) := by
  -- Nothing that is looked at reaches beyond the closing brace.
  induction inert with
  | done => rfl
  | @char shielded c s plain shield single _ ih =>
    have open_ : (c == '\x7d' && !shielded) = false := by
      by_cases brace : c = '\x7d'
      · rw [shield brace, Bool.not_true, Bool.and_false]
      · rw [beq_false_of_ne brace, Bool.false_and]
    rw [List.cons_append, read_plain plain, open_, begins_before, single, ih]
    rfl
  | @pair c s free unbroken _ ih =>
    rw [List.cons_append, List.cons_append, readDefault.eq_3 _ _ _ unbroken, free, ih]
    rfl
  | @backslash c s free unbroken _ ih =>
    rw [List.cons_append] at ih
    rw [List.cons_append, List.cons_append, readDefault.eq_3 _ _ _ unbroken, free, ih]
    rfl

/-- What stands before the closing brace of a default; it is inert if nothing of it was taken away. -/
def Encloses (shielded : Bool) (s value rest : Text) : Prop :=
  ∃ taken, s = taken ++ '\x7d' :: rest ∧ value.length ≤ taken.length ∧ (value = taken → Inert shielded taken)

theorem encloses_behind (front kept : Text) {inner : Bool}
    (read : behind kept (readDefault inner r) = some (value, rest))
    (each : ∀ value, readDefault inner r = some (value, rest) → Encloses inner r value rest)
    (short : kept.length ≤ front.length)
    (inert : kept = front → ∀ taken, r = taken ++ '\x7d' :: rest → Inert inner taken →
      Inert shielded (front ++ taken)) :
    Encloses shielded (front ++ r) value rest := by
  obtain ⟨⟨more, rest'⟩, found, same⟩ := Option.map_eq_some_iff.1 read
  obtain ⟨rfl, rfl⟩ := Prod.mk.inj same
  obtain ⟨taken, whole, long, held⟩ := each more found
  refine ⟨front ++ taken, by rw [whole, List.append_assoc], ?_, fun same => ?_⟩
  · simp only [List.length_append]
    omega
  · have length := congrArg List.length same
    simp only [List.length_append] at length
    obtain ⟨fronts, behinds⟩ := List.append_inj same (by omega)
    exact inert fronts taken whole (held behinds)

theorem read_encloses (read : readDefault shielded s = some (value, rest)) : Encloses shielded s value rest := by
  -- Along the reader: a step that takes a character away leaves the value shorter than what was taken.
  fun_induction readDefault shielded s generalizing value with
  | case1 => cases read
  | case2 shielded r ih =>
    refine encloses_behind ['\\', '\n'] [] ?_ (fun _ => ih) (Nat.zero_le _) nofun
    rw [read]
    rfl
  | case3 shielded c r unbroken guarded ih =>
    exact encloses_behind ['\\', c] [c] read (fun _ => ih) (by simp) fun same => by simp at same
  | case4 c r unbroken free ih =>
    refine encloses_behind ['\\'] ['\\'] read (fun _ => ih) (Nat.le_refl _) fun _ taken whole inert => ?_
    cases taken with
    | nil => cases inert
    | cons d taken =>
      obtain ⟨rfl, -⟩ := List.cons.inj whole
      exact .backslash (Bool.eq_false_iff.2 free) unbroken inert
  | case5 shielded c r unbroken free outside ih =>
    obtain rfl : shielded = false := Bool.eq_false_iff.2 outside
    exact encloses_behind ['\\', c] ['\\', c] read (fun _ => ih) (Nat.le_refl _) fun _ taken whole inert =>
      .pair (Bool.eq_false_iff.2 free) unbroken inert
  | case6 shielded c r _ _ closes =>
    obtain ⟨brace, outside⟩ := Bool.and_eq_true_iff.1 closes
    obtain rfl := beq_iff_eq.1 brace
    obtain rfl : shielded = false := Bool.not_eq_true' _ ▸ outside
    obtain ⟨rfl, rfl⟩ := Prod.mk.inj (Option.some.inj read)
    exact ⟨[], rfl, Nat.le_refl _, fun _ => .done⟩
  | case7 => cases read
  | case8 shielded c r _ single open_ alone ih =>
    refine encloses_behind [c] [c] read (fun _ => ih) (Nat.le_refl _) fun _ taken whole inert => ?_
    have plain : c ≠ '\\' := by
      rintro rfl
      cases r with
      | nil => cases taken <;> cases whole
      | cons d r => exact single d r rfl rfl
    have shield : c = '\x7d' → shielded = true := fun brace => by simpa [brace] using open_
    rw [whole, begins_before] at alone
    exact .char plain shield (Bool.eq_false_iff.2 alone) inert

-- A text before a closing brace is read as it is just when it is inert.
theorem read_default_iff (s rest : Text) :
    readDefault false (s ++ '\x7d' :: rest) = some (s, rest) ↔ Inert false s := by
  refine ⟨fun read => ?_, fun inert => inert.read rest⟩
  obtain ⟨taken, whole, -, inert⟩ := read_encloses read
  exact List.append_cancel_right whole ▸ inert (List.append_cancel_right whole)

end Reading

section Safe

/-- Characters that may stand anywhere in an inert text. -/
def isInert (c : Char) : Bool := !("\"'<>$\x60\\\x7d\x00".toList.contains c)

theorem inert_of_safe {s : Text} (safe : s.all isInert = true) : Inert false s := by
  induction s with
  | nil => exact .done
  | cons c s ih =>
    obtain ⟨first, others⟩ := Bool.and_eq_true_iff.1 safe
    have other {d : Char} (special : isInert d = false) : c ≠ d := by
      rintro rfl
      rw [special] at first
      cases first
    have alone : beginsMore false c s = false := by
      simp [beginsMore, other (show isInert '"' = false by decide), other (show isInert '\x60' = false by decide),
        other (show isInert '\x00' = false by decide), other (show isInert '$' = false by decide),
        other (show isInert '<' = false by decide), other (show isInert '>' = false by decide)]
    refine .char (other (by decide)) (fun brace => absurd brace (other (by decide))) alone ?_
    rw [shieldAfter, if_neg (by simpa using other (show isInert '\'' = false by decide))]
    exact ih others

end Safe

section Assignments

/-- A variable that is set to another one, or to the default where that one is unset or empty. -/
structure Assignment where
  name : Text
  source : Text
  default : Text
deriving DecidableEq

def Assignment.value (a : Assignment) (env : Text → Option Text) : Text :=
  match env a.source with
  | some s => if s.isEmpty then a.default else s
  | none => a.default

def after? (front s : Text) : Option Text := if front.isPrefixOf s then some (s.drop front.length) else none

def readName (s : Text) : Option (Text × Text) :=
  let name := s.takeWhile isIdentifierRest
  if isIdentifier name then some (name, s.drop name.length) else none

/-- An assignment that is one word on a line of its own, and what follows the line. -/
def assignment? (s : Text) : Option (Assignment × Text) := do
  let (name, s) ← readName s
  let s ← after? ['=', '"', '$', '\x7b'] s
  let (source, s) ← readName s
  let s ← after? [':', '-'] s
  let (default, s) ← readDefault false s
  let s ← after? ['"', '\n'] s
  some (⟨name, source, default⟩, s)

theorem after_iff {front s rest : Text} : after? front s = some rest ↔ s = front ++ rest := by
  unfold after?
  constructor
  · intro found
    split at found
    · rename_i begins
      obtain ⟨t, rfl⟩ := List.isPrefixOf_iff_prefix.1 begins
      rw [List.drop_left] at found
      rw [Option.some.inj found]
    · cases found
  · rintro rfl
    rw [if_pos (List.isPrefixOf_iff_prefix.2 (List.prefix_append front rest)), List.drop_left]

theorem read_name {name : Text} {c : Char} (identifier : isIdentifier name = true) (ends : isIdentifierRest c = false)
    (s : Text) : readName (name ++ c :: s) = some (name, c :: s) := by
  have chars := (Yaml.identifier_chars name identifier).2
  have whole : (name ++ c :: s).takeWhile isIdentifierRest = name := by
    rw [List.takeWhile_append_of_pos chars, List.takeWhile_cons_of_neg (by simp [ends]), List.append_nil]
  simp only [readName, whole, identifier, if_true, List.drop_left]

variable {name source : Text}

theorem read_assignment (named : isIdentifier name = true) (sourced : isIdentifier source = true) (s : Text) :
    assignment? (name ++ (['=', '"', '$', '\x7b'] ++ (source ++ ([':', '-'] ++ s)))) =
      (readDefault false s).bind fun (default, s) =>
        (after? ['"', '\n'] s).map fun rest => (⟨name, source, default⟩, rest) := by
  have opened (s : Text) :
      readName (name ++ (['=', '"', '$', '\x7b'] ++ s)) = some (name, ['=', '"', '$', '\x7b'] ++ s) :=
    read_name named (by decide) _
  have divided (s : Text) : readName (source ++ ([':', '-'] ++ s)) = some (source, [':', '-'] ++ s) :=
    read_name sourced (by decide) _
  simp only [assignment?, opened, divided, after_iff.2 rfl, Option.bind_eq_bind, Option.bind_some, Option.map_eq_bind]
  rfl

/-- What the line that `s` begins with sets in an environment, with the rest of `s`. -/
def assigned? (env : Text → Option Text) (s : Text) : Option (Text × Text × Text) :=
  (assignment? s).map fun (a, rest) => (a.name, a.value env, rest)

-- Where the other variable is unset, a default is the value just when it is inert.
theorem assigned_iff (named : isIdentifier name = true) (sourced : isIdentifier source = true)
    {env : Text → Option Text} (unset : env source = none) (default rest : Text) :
    assigned? env (name ++ (['=', '"', '$', '\x7b'] ++ (source ++ ([':', '-'] ++
      (default ++ '\x7d' :: (['"', '\n'] ++ rest)))))) = some (name, default, rest) ↔ Inert false default := by
  rw [← read_default_iff default (['"', '\n'] ++ rest), assigned?, read_assignment named sourced]
  constructor
  · intro set
    obtain ⟨⟨a, rest'⟩, read, same⟩ := Option.map_eq_some_iff.1 set
    obtain ⟨⟨value, s⟩, begun, more⟩ := Option.bind_eq_some_iff.1 read
    obtain ⟨t, ends, parts⟩ := Option.map_eq_some_iff.1 more
    obtain ⟨rfl, rfl⟩ := Prod.mk.inj parts
    simp only [Assignment.value, unset, Prod.mk.injEq, true_and] at same
    obtain ⟨rfl, rfl⟩ := same
    rw [begun, after_iff.1 ends]
  · intro read
    simp only [read, Option.bind_some, after_iff.2 rfl, Option.map_some, Assignment.value, unset]

end Assignments

end PipelineMigration.Text.Shell
