import Mathlib.Data.List.TakeWhile
import PipelineMigration.Capability.Scan
import PipelineMigration.Proofs.Script.Comment
set_option autoImplicit false

/- Uses of capabilities and comments. A scan tells comments by how their lines begin, and other readers of a script
   take them out first. Where comments stand on lines of their own, and each of these lines begins as a comment does,
   the scan finds the same with and without them. -/
namespace PipelineMigration

open Script (Code Remarks EndsLine stripComments)

namespace Text

theorem lines_break {c : Char} {r : Text} (breaks : isLineBreak c = true) (apart : c = '\r' → r.head? ≠ some '\n') :
    lines (c :: r) = [] :: lines r := by
  rw [lines.eq_def]
  split
  · rename_i none
    cases none
  · rename_i r' whole
    obtain ⟨rfl, rfl⟩ := List.cons.inj whole
    exact absurd rfl (apart rfl)
  · rename_i d r' _ whole
    obtain ⟨rfl, rfl⟩ := List.cons.inj whole
    rw [if_pos breaks]

theorem lines_char {c : Char} {r : Text} (plain : isLineBreak c = false) :
    lines (c :: r) = (c :: (lines r).headD []) :: (lines r).tail := by
  rw [lines.eq_def]
  split
  · rename_i none
    cases none
  · rename_i r' whole
    rw [(List.cons.inj whole).1] at plain
    cases plain
  · rename_i d r' _ whole
    obtain ⟨rfl, rfl⟩ := List.cons.inj whole
    rw [if_neg (by simp [plain])]
    cases lines r <;> rfl

theorem lines_eq_nil_iff {s : Text} : lines s = [] ↔ s = [] := by
  refine ⟨fun none => ?_, fun none => none ▸ rfl⟩
  rw [lines.eq_def] at none
  split at none
  · rfl
  · cases none
  · split at none
    · cases none
    · split at none <;> cases none

-- A stretch that ends its line and what follows it are cut into lines apart.
theorem lines_append {u rest : Text} (ends : EndsLine u rest) : lines (u ++ rest) = lines u ++ lines rest := by
  rcases ends with rfl | last
  · rw [List.append_nil, lines, List.append_nil]
  · fun_induction lines u with
    | case1 => rfl
    | case2 r ih =>
      have later : ∀ c ∈ r.getLast?, c = '\n' := fun c member => last c (by cases r <;> simp_all)
      exact congrArg ([] :: ·) (ih later)
    | case3 c r single breaks ih =>
      have later : ∀ d ∈ r.getLast?, d = '\n' := fun d member => last d (by cases r <;> simp_all)
      have apart : c = '\r' → (r ++ rest).head? ≠ some '\n' := by
        rintro rfl
        cases r with
        | nil => exact absurd (last '\r' rfl) (by decide)
        | cons d r =>
          intro next
          exact single r rfl (by rw [Option.some.inj next])
      rw [List.cons_append, lines_break breaks apart, ih later]
      rfl
    | case4 c r single plain none ih =>
      obtain rfl := lines_eq_nil_iff.1 none
      rw [last c rfl] at plain
      exact absurd rfl plain
    | case5 c r single plain l ls found ih =>
      have filled : r ≠ [] := fun none => by
        rw [none] at found
        cases found
      have later : ∀ d ∈ r.getLast?, d = '\n' := fun d member => last d (by cases r <;> simp_all)
      rw [List.cons_append, lines_char (by simpa using plain), ih later, found]
      rfl

-- What holds of all characters of a text holds of those of its lines.
theorem lines_hold {P : Char → Prop} {s : Text} (each : ∀ c ∈ s, P c) : ∀ l ∈ lines s, ∀ c ∈ l, P c := by
  fun_induction lines s with
  | case1 => exact List.forall_mem_nil _
  | case2 r ih =>
    have later := ih fun c member => each c (List.mem_cons_of_mem _ (List.mem_cons_of_mem _ member))
    exact List.forall_mem_cons.2 ⟨List.forall_mem_nil _, later⟩
  | case3 c r single breaks ih =>
    exact List.forall_mem_cons.2 ⟨List.forall_mem_nil _, ih (List.forall_mem_cons.1 each).2⟩
  | case4 c r single plain none ih =>
    exact List.forall_mem_singleton.2 (List.forall_mem_singleton.2 (each c List.mem_cons_self))
  | case5 c r single plain l ls found ih =>
    obtain ⟨here, rest⟩ := List.forall_mem_cons.1 each
    obtain ⟨first, others⟩ := List.forall_mem_cons.1 (found ▸ ih rest)
    exact List.forall_mem_cons.2 ⟨List.forall_mem_cons.2 ⟨here, first⟩, others⟩

end Text

namespace Capability

variable (t : Tables)

/-- The uses in lines that are numbered from the one after `n`. -/
def scanLines (n : Nat) (lines : List Text) : List CapabilityHit :=
  (lines.zipIdx n).flatMap fun (line, i) => if isIdle line then [] else t.hitsInLine line (i + 1)

theorem scan_lines_append (n : Nat) (front back : List Text) :
    scanLines t n (front ++ back) = scanLines t n front ++ scanLines t (n + front.length) back := by
  unfold scanLines
  rw [List.zipIdx_append, List.flatMap_append, Nat.add_comm]

theorem scan_lines_idle (n : Nat) {lines : List Text} (idle : ∀ l ∈ lines, isIdle l = true) : scanLines t n lines = [] := by
  refine List.flatMap_eq_nil_iff.2 fun entry member => ?_
  exact if_pos (idle _ (List.fst_mem_of_mem_zipIdx member))

theorem blank_idle {l : Text} (blank : ∀ c ∈ l, Text.isBlank c = true) : isIdle l = true := by
  have none : l.dropWhile Text.isBlank = [] := List.dropWhile_eq_nil_iff.2 blank
  unfold isIdle Text.trim Text.trimBy Text.trimLeftBy
  rw [none]
  rfl

/-- Code, and comments on lines of their own. Each line of a comment begins as comments do, and no line break but a
    line feed goes with it. -/
inductive Tidy : Text → Prop where
  | done : Tidy []
  | code {u rest : Text} : Code rest u → EndsLine u rest → Tidy rest → Tidy (u ++ rest)
  | remarks {u rest : Text} : Remarks u → EndsLine u rest → (∀ l ∈ Text.lines u, isIdle l = true) →
      (Text.lines (stripComments u)).length = (Text.lines u).length → Tidy rest → Tidy (u ++ rest)

variable {t}

theorem Tidy.scan_lines {script : Text} (tidy : Tidy script) (n : Nat) :
    scanLines t n (Text.lines (stripComments script)) = scanLines t n (Text.lines script) := by
  induction tidy generalizing n with
  | done => rfl
  | @code u rest code ends _ ih =>
    have kept : EndsLine u (stripComments rest) := ends.imp_left fun none => by
      rw [none]
      rfl
    rw [code.kept, Text.lines_append kept, Text.lines_append ends, scan_lines_append, scan_lines_append, ih]
  | @remarks u rest remarks ends idle lines _ ih =>
    obtain ⟨gone, bare⟩ := remarks.gone ends
    have blank : ∀ l ∈ Text.lines (stripComments u), isIdle l = true := fun l member => blank_idle (Text.lines_hold bare l member)
    rw [gone, Text.lines_append ends.strip, Text.lines_append ends, scan_lines_append, scan_lines_append, lines, ih,
      scan_lines_idle t n blank, scan_lines_idle t n idle]

/-- Where comments stand on lines of their own, the scan finds the same when they are taken out. -/
theorem scan_uncommented (t : Tables) {script : Text} (tidy : Tidy script) :
    scanAll t (stripComments script) = scanAll t script ∧ scan t (stripComments script) = scan t script := by
  have all : scanAll t (stripComments script) = scanAll t script := tidy.scan_lines 0
  refine ⟨all, ?_⟩
  unfold scan
  rw [all]

def notedCode : Text := "slackSend(channel: ".toList ++ ('\'' :: ("//x'".toList ++ (")\n".toList ++ [])))

def notedRemarks : Text :=
  '/' :: '/' :: (" junit(".toList ++ ('\n' :: '/' :: '*' :: (" retry(\n * timeout( ".toList ++ ('*' :: '/' :: ['\n']))))

/-- A call with a comment mark in its literal, and behind it a comment to the end of the line and one on two lines. -/
def notedScript : Text := notedCode ++ (notedRemarks ++ [])

theorem noted_tidy : Tidy notedScript := by
  have code : Code (notedRemarks ++ []) notedCode :=
    .plain (by decide) (.literal rfl (by decide) (.plain (by decide) .done))
  have slashless : '/' ∉ " retry(\n * timeout( ".toList := by decide
  have open_ : ¬ "*/".toList <:+: " retry(\n * timeout( ".toList := fun inside => slashless (inside.subset (by decide))
  have remarks : Remarks notedRemarks :=
    .line (by decide) (fun d next => (Option.some.inj next).symm) (.blank rfl (.block open_ (.blank rfl .done)))
  have feed : notedCode.getLast? = some '\n' := by decide
  have ends : EndsLine notedCode (notedRemarks ++ []) := .inr fun c last => Option.some.inj (last.symm.trans feed)
  exact .code code ends (.remarks remarks (.inl rfl) (by decide) (by decide) .done)

/-- Of all calls in it, only the one outside the comments is found, whether they are taken out or not. -/
theorem noted_scanned : scanAll {} (stripComments notedScript) = scanAll {} notedScript ∧
    scan {} (stripComments notedScript) = scan {} notedScript ∧ (scanAll {} notedScript).map (·.id) = ["slack".toList] := by
  obtain ⟨all, first⟩ := scan_uncommented {} noted_tidy
  exact ⟨all, first, by decide +kernel⟩

section Misread

/-- The capability of a use and the line it is on. -/
def place (h : CapabilityHit) : Text × Int := (h.id, h.line)

theorem scan_few (script : Text) (few : (scanAll t script).length ≤ 1) : scan t script = scanAll t script := by
  unfold scan
  cases found : scanAll t script with
  | nil => exact List.mergeSort_nil
  | cons h rest =>
    cases rest with
    | nil => exact List.mergeSort_singleton _
    | cons g rest =>
      rw [found] at few
      simp at few

/-- A call in a comment behind code. -/
def trailingScript : Text := "sh 'make' // slackSend("

/-- A call behind a comment. -/
def leadingScript : Text := "/* notify */ slackSend()"

/-- A comment behind code adds a use, and a comment before code hides one. -/
theorem comments_misread :
    (scan {} trailingScript).map place = [("slack".toList, 1)] ∧ (scan {} (stripComments trailingScript)).map place = [] ∧
      (scan {} leadingScript).map place = [] ∧ (scan {} (stripComments leadingScript)).map place = [("slack".toList, 1)] := by
  have trailing : (scanAll {} trailingScript).map place = [("slack".toList, 1)] ∧
      (scanAll {} (stripComments trailingScript)).map place = [] := by decide +kernel
  have leading : (scanAll {} leadingScript).map place = [] ∧
      (scanAll {} (stripComments leadingScript)).map place = [("slack".toList, 1)] := by decide +kernel
  have few {script : Text} {places : List (Text × Int)} (found : (scanAll {} script).map place = places)
      (short : places.length ≤ 1) : (scan {} script).map place = places := by
    rw [scan_few script (by rwa [← List.length_map (f := place), found]), found]
  exact ⟨few trailing.1 (by decide), few trailing.2 (by decide), few leading.1 (by decide), few leading.2 (by decide)⟩

end Misread

end Capability
end PipelineMigration
