import Mathlib.Data.List.Basic
import PipelineMigration.Extraction
import PipelineMigration.Proofs.Capability.Uncommented
import PipelineMigration.Proofs.Pattern.Taken
import PipelineMigration.Proofs.Script.Block
set_option autoImplicit false

/- Numbers of lines in two readings. One cuts a text into lines at every break that Unicode knows, the other counts line
   feeds; they come apart at the endings that no line feed is part of. -/
namespace PipelineMigration.Text

/-- Ends of lines that no line feed is part of. -/
def oddEndings : Text → Nat
  | [] => 0
  | '\r' :: '\n' :: r => oddEndings r
  | c :: r => (if isLineBreak c && c != '\n' then 1 else 0) + oddEndings r

abbrev Fronted := Text × Text

def behind (pre : Text) (entry : Fronted) : Fronted := (pre ++ entry.1, entry.2)

/-- The lines of a text, each with all that stands before it. -/
def fronts : Text → List Fronted
  | [] => []
  | '\r' :: '\n' :: r => ([], []) :: (fronts r).map (behind ['\r', '\n'])
  | c :: r =>
    if isLineBreak c then ([], []) :: (fronts r).map (behind [c])
    else match fronts r with
      | [] => [([], [c])]
      | (_, line) :: rest => ([], c :: line) :: rest.map (behind [c])

/-- The number of the line behind a front, from 0, which `lines` gives it. -/
def endings (front : Text) : Nat := front.count '\n' + oddEndings front

/-- The lines with their numbers, from `n`. -/
def numbered (n : Nat) (entries : List Fronted) : List (Text × Nat) :=
  entries.map fun entry => (entry.2, n + endings entry.1)

/-- A line stands behind its front, and no line ends in it. -/
structure Stands (s front line : Text) : Prop where
  whole : ∃ back, s = front ++ (line ++ back)
  plain : ∀ c ∈ line, isLineBreak c = false

section Fronts

variable {s front line : Text} {c : Char}

theorem odd_single (apart : c = '\r' → s.head? ≠ some '\n') :
    oddEndings (c :: s) = (if isLineBreak c && c != '\n' then 1 else 0) + oddEndings s := by
  refine oddEndings.eq_3 c s fun r carriage feed => ?_
  rw [feed] at apart
  exact apart carriage rfl

theorem Stands.behind (stands : Stands s front line) (pre : Text) : Stands (pre ++ s) (pre ++ front) line := by
  obtain ⟨back, rfl⟩ := stands.whole
  exact ⟨⟨back, (List.append_assoc _ _ _).symm⟩, stands.plain⟩

theorem stand_behind {r pre : Text} {entries : List Fronted} (each : ∀ entry ∈ entries, Stands r entry.1 entry.2) :
    ∀ entry ∈ entries.map (behind pre), Stands (pre ++ r) entry.1 entry.2 :=
  List.forall_mem_map.2 fun entry member => (each entry member).behind pre

theorem first_front {rest : List Fronted} (first : fronts s = (front, line) :: rest) : front = [] := by
  revert first
  fun_cases fronts s with
  | case1 => exact nofun
  | case2 | case3 | case4 | case5 => simp_all

theorem fronts_stand (s : Text) : ∀ entry ∈ fronts s, Stands s entry.1 entry.2 := by
  have empty (s : Text) : Stands s [] [] := ⟨⟨s, rfl⟩, List.forall_mem_nil _⟩
  fun_induction fronts s with
  | case1 => exact List.forall_mem_nil _
  | case2 r ih => exact List.forall_mem_cons.2 ⟨empty _, stand_behind ih⟩
  | case3 c r single breaks ih => exact List.forall_mem_cons.2 ⟨empty _, stand_behind ih⟩
  | case4 c r single plain none ih =>
    exact List.forall_mem_singleton.2 ⟨⟨r, rfl⟩, List.forall_mem_singleton.2 (Bool.eq_false_iff.2 plain)⟩
  | case5 c r single plain f l rest found ih =>
    obtain rfl := first_front found
    rw [found] at ih
    obtain ⟨⟨⟨back, whole⟩, unbroken⟩, others⟩ := List.forall_mem_cons.1 ih
    refine List.forall_mem_cons.2 ⟨⟨⟨back, ?_⟩, ?_⟩, stand_behind others⟩
    · rw [whole]
      rfl
    · exact List.forall_mem_cons.2 ⟨Bool.eq_false_iff.2 plain, unbroken⟩

-- No front is part of a carriage return with its line feed.
theorem endings_break (breaks : isLineBreak c = true) (apart : c = '\r' → s.head? ≠ some '\n')
    (stands : Stands s front line) : endings (c :: front) = endings front + 1 := by
  have single : c = '\r' → front.head? ≠ some '\n' := by
    intro carriage feed
    obtain ⟨back, rfl⟩ := stands.whole
    obtain ⟨rest, rfl⟩ := List.head?_eq_some_iff.1 feed
    exact apart carriage rfl
  rw [endings, odd_single single, breaks]
  by_cases feed : c = '\n'
  · simp [feed, endings]
    omega
  · simp [feed, endings]
    omega

theorem endings_char (plain : isLineBreak c = false) (front : Text) : endings (c :: front) = endings front := by
  have other : c ≠ '\n' := by
    rintro rfl
    cases plain
  have single : c = '\r' → front.head? ≠ some '\n' := by
    rintro rfl
    cases plain
  rw [endings, odd_single single, plain, List.count_cons_of_ne other]
  simp [endings]

theorem numbered_behind {pre : Text} {entries : List Fronted} {more : Nat}
    (each : ∀ entry ∈ entries, endings (pre ++ entry.1) = endings entry.1 + more) (n : Nat) :
    numbered n (entries.map (behind pre)) = numbered (n + more) entries := by
  unfold numbered
  rw [List.map_map]
  refine List.map_congr_left fun entry member => Prod.ext rfl ?_
  have count := each entry member
  simp only [Function.comp_apply, behind]
  omega

theorem numbered_first (n : Nat) (line : Text) (rest : List Fronted) :
    numbered n (([], line) :: rest) = (line, n) :: numbered n rest := rfl

-- `lines` numbers each line by the endings in front of it.
theorem lines_numbered (s : Text) (n : Nat) : (lines s).zipIdx n = numbered n (fronts s) := by
  -- Along the lines: what ends a line counts one in every front behind it, any other character none.
  fun_induction fronts s generalizing n with
  | case1 => rfl
  | case2 r ih =>
    have pair : ∀ entry ∈ fronts r, endings (['\r', '\n'] ++ entry.1) = endings entry.1 + 1 := fun entry _ => by
      have other : entry.1.count '\n' + 1 = (['\r', '\n'] ++ entry.1).count '\n' := by simp
      unfold endings
      rw [← other, Nat.add_right_comm]
      rfl
    rw [lines, List.zipIdx_cons, ih, numbered_first, numbered_behind pair]
  | case3 c r single breaks ih =>
    have apart : c = '\r' → r.head? ≠ some '\n' := by
      intro carriage feed
      obtain ⟨rest, rfl⟩ := List.head?_eq_some_iff.1 feed
      exact single rest carriage rfl
    rw [lines_break breaks apart, List.zipIdx_cons, ih, numbered_first,
      numbered_behind fun entry member => endings_break breaks apart (fronts_stand r entry member)]
  | case4 c r single plain none ih =>
    have empty : lines r = [] := by simpa [none, numbered] using ih 0
    rw [lines_char (Bool.eq_false_iff.2 plain), empty]
    rfl
  | case5 c r single plain f l rest found ih =>
    obtain rfl := first_front found
    rw [found] at ih
    have later := ih n
    rw [numbered_first] at later
    rw [lines_char (Bool.eq_false_iff.2 plain), numbered_first,
      @numbered_behind [c] _ 0 fun entry _ => endings_char (Bool.eq_false_iff.2 plain) entry.1]
    cases whole : lines r with
    | nil =>
      rw [whole] at later
      cases later
    | cons line others =>
      rw [whole, List.zipIdx_cons] at later
      obtain ⟨same, others⟩ := List.cons.inj later
      obtain ⟨rfl, -⟩ := Prod.mk.inj same
      rw [List.headD_cons, List.tail_cons, List.zipIdx_cons, others]
      rfl

-- What stands in a line ends none.
theorem odd_plain (plain : ∀ c ∈ line, isLineBreak c = false) : oddEndings (front ++ line) = oddEndings front := by
  fun_induction oddEndings front with
  | case1 =>
    induction line with
    | nil => rfl
    | cons c line ih =>
      obtain ⟨here, rest⟩ := List.forall_mem_cons.1 plain
      have single : c = '\r' → line.head? ≠ some '\n' := by
        rintro rfl
        cases here
      rw [List.nil_append] at ih ⊢
      rw [odd_single single, here, ih rest]
      rfl
  | case2 r ih => exact ih
  | case3 c r single ih =>
    have apart : c = '\r' → (r ++ line).head? ≠ some '\n' := by
      intro carriage feed
      cases r with
      | nil => exact absurd (plain '\n' (List.mem_of_head? feed)) (by decide)
      | cons d r => exact single r carriage (congrArg (· :: r) (Option.some.inj feed))
    rw [List.cons_append, odd_single apart, ih]

-- At a place in a line its number is that of `lineAt` and the odd endings before it.
theorem line_at_place (stands : Stands s front line) {k : Nat} (within : k ≤ line.length) :
    lineAt s (front.length + k) + oddEndings (s.take (front.length + k)) = endings front + 1 := by
  obtain ⟨back, rfl⟩ := stands.whole
  have plain : ∀ c ∈ line.take k, isLineBreak c = false := fun c member => stands.plain c (List.mem_of_mem_take member)
  have feedless : (line.take k).count '\n' = 0 := List.count_eq_zero.2 fun feed => absurd (plain '\n' feed) (by decide)
  have taken : (front ++ (line ++ back)).take (front.length + k) = front ++ line.take k := by
    rw [List.take_length_add_append, List.take_append_of_le_length within]
  rw [lineAt, taken, odd_plain plain, List.count_append, feedless, endings]
  omega

end Fronts

end PipelineMigration.Text

/- The lines on which uses of capabilities are told. Both scans cut a text into lines at every break that Unicode knows,
   where other readers of a script count line feeds; so that a line is told with its number just when no odd ending stands
   before it. -/
namespace PipelineMigration

open Text

/-- A match in a line that begins behind a front. -/
structure LineMatch where
  front : Text
  found : Match

namespace LineMatch

def place (m : LineMatch) : Nat := m.front.length + m.found.start

structure FoundIn (m : LineMatch) (s line : Text) : Prop where
  stands : Stands s m.front line
  start : m.found.start ≤ line.length
  text : m.found.text <+: line.drop m.found.start

theorem FoundIn.text_at {m : LineMatch} {s line : Text} (found : m.FoundIn s line) :
    m.found.text <+: s.drop m.place := by
  obtain ⟨back, rfl⟩ := found.stands.whole
  rw [place, ← List.drop_drop, List.drop_left, List.drop_append_of_le_length found.start]
  exact found.text.trans (List.prefix_append _ _)

theorem FoundIn.place_le {m : LineMatch} {s line : Text} (found : m.FoundIn s line) : m.place ≤ s.length := by
  obtain ⟨back, whole⟩ := found.stands.whole
  have short := found.start
  rw [place, whole, List.length_append, List.length_append]
  omega

theorem FoundIn.line {m : LineMatch} {s line : Text} (found : m.FoundIn s line) :
    endings m.front + 1 = lineAt s m.place + oddEndings (s.take m.place) :=
  (line_at_place found.stands found.start).symm

end LineMatch

theorem Pattern.Found.within {a : Pattern} {s pre taken rest : Text} {m : Match} {k : Texts}
    (found : a.Found s m pre taken rest k) : m.start ≤ s.length ∧ m.text <+: s.drop m.start := by
  rw [found.start, found.text, found.whole, List.drop_left]
  exact ⟨by simp, List.prefix_append _ _⟩

namespace Capability

variable (t : Tables) {script : Text}

/-- A match that counts as the use of a capability, which is told as if on line 0. -/
structure Use extends LineMatch where
  hit : CapabilityHit

def Use.onLine (u : Use) (number : Nat) : CapabilityHit := { u.hit with line := number }

/-- The uses of capabilities in a script, in the order in which they are told. -/
def placedUses (script : Text) : List Use :=
  (fronts script).flatMap fun entry =>
    if isIdle entry.2 then []
    else t.signatures.flatMap fun signature => (signature.pattern.allMatches entry.2).filterMap fun m =>
      (t.hitOf? 0 signature m).map fun hit => ⟨⟨entry.1, m⟩, hit⟩

theorem hit_on_line (number : Nat) (signature : Signature) (m : Match) :
    t.hitOf? number signature m = (t.hitOf? 0 signature m).map fun hit => { hit with line := number } := by
  unfold Tables.hitOf?
  cases signature.target with
  | fixed id => rfl
  | named =>
    dsimp only
    split <;> rfl

theorem scan_all_used (script : Text) :
    scanAll t script = (placedUses t script).map fun u => u.onLine (endings u.front + 1) := by
  have each (front : Text) (number : Nat) (signature : Signature) (found : List Match) :
      found.filterMap (t.hitOf? number signature) = (found.filterMap fun m =>
        (t.hitOf? 0 signature m).map fun hit => Use.mk ⟨front, m⟩ hit).map (·.onLine number) := by
    rw [List.map_filterMap]
    refine List.filterMap_congr fun m _ => ?_
    rw [hit_on_line, Option.map_map]
    rfl
  rw [scanAll, lines_numbered, numbered, placedUses, List.flatMap_map, List.map_flatMap]
  refine List.flatMap_congr fun entry _ => ?_
  dsimp only
  rw [Nat.zero_add]
  split
  · rfl
  · rw [Tables.hitsInLine, List.map_flatMap]
    refine List.flatMap_congr fun signature _ => ?_
    rw [each entry.1]
    refine List.map_congr_left fun u member => ?_
    obtain ⟨m, -, same⟩ := List.mem_filterMap.1 member
    obtain ⟨hit, -, rfl⟩ := Option.map_eq_some_iff.1 same
    rfl

theorem hit_text {number : Nat} {signature : Signature} {m : Match} {hit : CapabilityHit}
    (counted : t.hitOf? number signature m = some hit) : hit.matchedText = trim m.text := by
  unfold Tables.hitOf? at counted
  dsimp only at counted
  split at counted
  · rw [← Option.some.inj counted]
  · split at counted
    · rw [← Option.some.inj counted]
    · cases counted

theorem placed_uses_found : ∀ u ∈ placedUses t script,
    (∃ line, u.FoundIn script line) ∧ u.hit.matchedText = trim u.found.text := by
  intro u member
  obtain ⟨entry, among, inside⟩ := List.mem_flatMap.1 member
  split at inside
  · cases inside
  · obtain ⟨signature, -, used⟩ := List.mem_flatMap.1 inside
    obtain ⟨m, matched, same⟩ := List.mem_filterMap.1 used
    obtain ⟨hit, counted, rfl⟩ := Option.map_eq_some_iff.1 same
    obtain ⟨pre, taken, rest, k, found⟩ := Pattern.all_matches_found matched
    exact ⟨⟨entry.2, fronts_stand script entry among, found.within.1, found.within.2⟩, hit_text t counted⟩

end Capability

namespace RoughScan

variable (excluded : List Text) {script : Text}

def stageBody (block : Match) : Text := Script.enclosed '\x7b' '\x7d' block.after.ahead

/-- A call in a stage block, found in a line of the body. -/
structure Call extends LineMatch where
  block : Match

def Call.name (c : Call) : Text := c.found.captured 1

def Call.site (c : Call) : Nat := c.block.stop + c.place

def calls (script : Text) : List Call :=
  (stageBlock.allMatches script).flatMap fun block => (fronts (stageBody block)).filterMap fun entry =>
    (callLine.matchStart entry.2).bind fun m =>
      if Capability.isExcluded excluded (m.captured 1) then none else some ⟨⟨entry.1, m⟩, block⟩

theorem plugin_lines_called (script : Text) : (RoughScan.of excluded script).pluginLines =
    (calls excluded script).map fun c => (c.name, lineAt script (c.block.stop - 1) + endings c.front) := by
  unfold RoughScan.of calls
  dsimp only
  rw [List.map_flatMap]
  refine List.flatMap_congr fun block _ => ?_
  rw [callsIn, lines_numbered, numbered, List.filterMap_map, List.map_filterMap]
  refine List.filterMap_congr fun entry _ => ?_
  rw [Function.comp_apply, Nat.zero_add]
  cases matched : callLine.matchStart entry.2 with
  | none => simp [matched]
  | some m =>
    simp only [matched, Option.map_some, Option.bind_some]
    split <;> rfl

theorem calls_found : ∀ c ∈ calls excluded script, (∃ line, c.FoundIn (stageBody c.block) line) ∧
    c.block ∈ stageBlock.allMatches script := by
  intro c member
  obtain ⟨block, listed, inside⟩ := List.mem_flatMap.1 member
  obtain ⟨entry, among, called⟩ := List.mem_filterMap.1 inside
  obtain ⟨m, matched, kept⟩ := Option.bind_eq_some_iff.1 called
  split at kept
  · cases kept
  · obtain rfl := Option.some.inj kept
    obtain ⟨taken, rest, k, found⟩ := @Pattern.match_found _ [] _ _ matched
    exact ⟨⟨entry.2, fronts_stand _ entry among, found.within.1, found.within.2⟩, listed⟩

-- The brace that opens a stage block is no line feed, and its body stands behind it.
theorem body_placed {block : Match} (listed : block ∈ stageBlock.allMatches script) :
    ∃ front back, script = front ++ '\x7b' :: (stageBody block ++ back) ∧ block.stop = front.length + 1 := by
  obtain ⟨pre, taken, rest, k, found⟩ := Pattern.all_matches_found listed
  obtain ⟨front, -, brace⟩ := Pattern.then_exactly.1 found.way
  have opening : "\x7b".toList = ['\x7b'] := by decide
  have body : ∃ back, rest = stageBody block ++ back := by
    rw [stageBody, found.after]
    rcases Script.enclosed_ends '\x7b' '\x7d' rest with all | ⟨back, ends⟩
    · exact ⟨[], by rw [List.append_nil]; exact all⟩
    · exact ⟨_, ends⟩
  obtain ⟨back, more⟩ := body
  refine ⟨pre ++ front, back, ?_, ?_⟩
  · rw [found.whole, brace, opening, ← more, List.append_assoc, List.append_assoc]
    rfl
  · rw [found.stop, brace, opening, List.length_append, List.length_append]
    rfl

-- A place in the body of a stage block has a number of its own there, which goes on from the line of the brace.
theorem line_in_body {block : Match} (listed : block ∈ stageBlock.allMatches script) {i : Nat}
    (within : i ≤ (stageBody block).length) :
    lineAt script (block.stop + i) + 1 = lineAt script (block.stop - 1) + lineAt (stageBody block) i := by
  obtain ⟨front, back, whole, stop⟩ := body_placed listed
  have brace : script.take (block.stop - 1) = front := by
    rw [whole, stop, Nat.add_sub_cancel, List.take_left]
  have inside : script.take (block.stop + i) = front ++ '\x7b' :: (stageBody block).take i := by
    rw [whole, stop, Nat.add_assoc, List.take_length_add_append, Nat.add_comm 1 i, List.take_succ_cons,
      List.take_append_of_le_length within]
  have other : '\x7b' ≠ '\n' := by decide
  simp only [lineAt, brace, inside, List.count_append, List.count_cons_of_ne other]
  omega

theorem call_line {c : Call} (member : c ∈ calls excluded script) :
    lineAt script (c.block.stop - 1) + endings c.front =
      lineAt script c.site + oddEndings ((stageBody c.block).take c.place) := by
  obtain ⟨⟨line, found⟩, listed⟩ := calls_found excluded c member
  have own := found.line
  have goes := line_in_body listed found.place_le
  rw [Call.site]
  omega

theorem call_text {c : Call} (member : c ∈ calls excluded script) : c.found.text <+: script.drop c.site := by
  obtain ⟨⟨line, found⟩, listed⟩ := calls_found excluded c member
  obtain ⟨front, back, whole, stop⟩ := body_placed listed
  have behind : script.drop c.site = (stageBody c.block).drop c.place ++ back := by
    rw [Call.site, whole, stop, Nat.add_assoc, List.drop_length_add_append, Nat.add_comm 1, List.drop_succ_cons,
      List.drop_append_of_le_length found.place_le]
  rw [behind]
  exact found.text_at.trans (List.prefix_append _ _)

end RoughScan

open Capability RoughScan

/-- Uses and calls stand where their places say. They are told with the line of their place and the odd endings before it,
    for a call those in the body of its stage; so that they are told with their lines just when there are none. -/
theorem lines_told_iff (t : Tables) (excluded : List Text) (script : Text) :
    (∀ u ∈ placedUses t script, u.hit.matchedText = trim u.found.text ∧ u.found.text <+: script.drop u.place) ∧
    scanAll t script = (placedUses t script).map
      (fun u => u.onLine (lineAt script u.place + oddEndings (script.take u.place))) ∧
    (scanAll t script = (placedUses t script).map (fun u => u.onLine (lineAt script u.place)) ↔
      ∀ u ∈ placedUses t script, oddEndings (script.take u.place) = 0) ∧
    (∀ c ∈ calls excluded script, c.found.text <+: script.drop c.site) ∧
    (RoughScan.of excluded script).pluginLines = (calls excluded script).map
      (fun c => (c.name, lineAt script c.site + oddEndings ((stageBody c.block).take c.place))) ∧
    ((RoughScan.of excluded script).pluginLines =
        (calls excluded script).map (fun c => (c.name, lineAt script c.site)) ↔
      ∀ c ∈ calls excluded script, oddEndings ((stageBody c.block).take c.place) = 0) := by
  have told : scanAll t script = (placedUses t script).map
      (fun u => u.onLine (lineAt script u.place + oddEndings (script.take u.place))) := by
    rw [scan_all_used]
    refine List.map_congr_left fun u member => ?_
    obtain ⟨⟨line, found⟩, -⟩ := placed_uses_found t u member
    rw [found.line]
  have called : (RoughScan.of excluded script).pluginLines = (calls excluded script).map
      (fun c => (c.name, lineAt script c.site + oddEndings ((stageBody c.block).take c.place))) := by
    rw [plugin_lines_called]
    exact List.map_congr_left fun c member => by rw [call_line excluded member]
  refine ⟨fun u member => ?_, told, ?_, fun c member => call_text excluded member, called, ?_⟩
  · obtain ⟨⟨line, found⟩, text⟩ := placed_uses_found t u member
    exact ⟨text, found.text_at⟩
  · rw [told, List.map_inj_left]
    refine forall₂_congr fun u _ => ⟨fun same => ?_, fun none => by rw [none, Nat.add_zero]⟩
    have number := congrArg CapabilityHit.line same
    simp only [Use.onLine] at number
    omega
  · rw [called, List.map_inj_left]
    refine forall₂_congr fun c _ => ⟨fun same => ?_, fun none => by rw [none, Nat.add_zero]⟩
    have number := (Prod.mk.inj same).2
    omega

/-- A form feed begins a line for the scan, and none for the readers that count line feeds. -/
theorem form_feed_counted :
    (scanAll {} "sh 'make'\x0cslackSend()").map (·.line) = [2] ∧
    (placedUses {} "sh 'make'\x0cslackSend()").map (fun u => lineAt "sh 'make'\x0cslackSend()" u.place) = [1] ∧
    (RoughScan.of excludedNames "stage('A') \x7b steps()\x0cslackSend() \x7d").pluginLines = [("slackSend".toList, 2)] ∧
    (calls excludedNames "stage('A') \x7b steps()\x0cslackSend() \x7d").map
      (fun c => lineAt "stage('A') \x7b steps()\x0cslackSend() \x7d" c.site) = [1] := by
  decide +kernel

end PipelineMigration
