import Mathlib.Data.Finset.Max
import PipelineMigration.Proofs.Feature.Condition
import PipelineMigration.Proofs.Job.Deployment
import PipelineMigration.Proofs.Pattern.Front
import PipelineMigration.Proofs.Script.Block
import PipelineMigration.Script.Literal
set_option autoImplicit false

/- The stage of a guard is the one called last before its block, whether or not it is still open there. Where blocks
   nest as they should that is the innermost stage around the block just when none that was called in between has
   another name. -/
namespace PipelineMigration.Feature

open Pattern

section Call

variable {before : Option Char} {taken rest : Text} {k : Texts}

/-- What stands between the word of a stage call and the literal with the name. -/
inductive CallFront : Text → Prop
  | mk {g h n : Text} : Blank g → Blank h → n = [] ∨ Label "name" n → CallFront (g ++ ['('] ++ h ++ n)

theorem CallFront.unquoted {front : Text} (held : CallFront front) : Unquoted front := by
  cases held with
  | @mk g h n blank blank' name =>
    have bracket : Unquoted ['('] := List.forall_mem_singleton.2 (by decide)
    refine ((blank.unquoted.append bracket).append blank'.unquoted).append ?_
    rcases name with rfl | name
    · exact nofun
    · exact name.unquoted (by unfold Unquoted; decide)

theorem call_eq : stageCall = edge ++ exactly "stage".toList ++ blanks ++ exactly ['('] ++ blanks ++
    optional (exactly "name".toList ++ blanks ++ exactly [':'] ++ blanks) ++ quoteMark ++
    capture 1 (longest 1 fun c => !Text.isQuote c) ++ quoteMark := rfl

theorem call_takes : stageCall.Takes before taken rest k ↔ before.any Text.isWord = false ∧
    ∃ front mark name close, CallFront front ∧ Text.isQuote mark = true ∧ name ≠ [] ∧ Unquoted name ∧
      Text.isQuote close = true ∧ taken = "stage".toList ++ front ++ mark :: (name ++ [close]) ∧ k = [(1, name)] := by
  have letter : "stage".toList.head?.any Text.isWord = true := by decide
  rw [call_eq]
  constructor
  · intro way
    obtain ⟨_, mark, name, close, _, toLabel, opens, ⟨long, plain⟩, closes, rfl, rfl⟩ := then_quoted.1 way
    obtain ⟨_, n, _, _, toGap, label, rfl, rfl⟩ := then_takes.1 toLabel
    obtain ⟨held, rfl⟩ := name_takes.1 label
    obtain ⟨_, h, toBracket, blank', rfl⟩ := then_blanks.1 toGap
    obtain ⟨_, toWord, rfl⟩ := then_exactly.1 toBracket
    obtain ⟨_, g, toStage, blank, rfl⟩ := then_blanks.1 toWord
    obtain ⟨outside, rfl, rfl⟩ := (edge_then letter).1 toStage
    refine ⟨outside, _, mark, name, close, .mk blank blank' held, opens, List.ne_nil_of_length_pos long,
      fun c member => by simpa using plain c member, closes, ?_, rfl⟩
    simp only [List.append_assoc]
  · rintro ⟨outside, _, mark, name, close, ⟨blank, blank', held⟩, opens, filled, plain, closes, rfl, rfl⟩
    have long : 1 ≤ name.length ∧ ∀ c ∈ name, (!Text.isQuote c) = true :=
      ⟨List.length_pos_iff.2 filled, fun c member => by simpa using plain c member⟩
    refine then_quoted.2 ⟨_, mark, name, close, [], then_takes.2 ⟨_, _, [], [], then_blanks.2 ⟨_, _,
      then_exactly.2 ⟨_, then_blanks.2 ⟨_, _, (edge_then letter).2 ⟨outside, rfl, rfl⟩, blank, rfl⟩, rfl⟩, blank', rfl⟩,
      name_takes.2 ⟨held, rfl⟩, rfl, rfl⟩, opens, long, closes, ?_, rfl⟩
    simp only [List.append_assoc]

theorem call_quotes (way : stageCall.Takes before taken rest k) :
    taken.countP Text.isQuote = 2 ∧ ∃ front close, taken = front ++ [close] ∧ Text.isQuote close = true := by
  obtain ⟨-, front, mark, name, close, held, opens, -, plain, closes, rfl, -⟩ := call_takes.1 way
  have none {s : Text} (unquoted : Unquoted s) : s.countP Text.isQuote = 0 :=
    List.countP_eq_zero.2 fun c member => by simp [unquoted c member]
  have word : Unquoted "stage".toList := by
    unfold Unquoted
    decide
  refine ⟨?_, "stage".toList ++ front ++ mark :: name, close, by simp, closes⟩
  rw [List.countP_append, none (word.append held.unquoted), List.countP_cons_of_pos opens, List.countP_append, none plain,
    List.countP_cons_of_pos closes]
  rfl

theorem call_definite : Definite stageCall := by
  have word : Unquoted "stage".toList := by
    unfold Unquoted
    decide
  refine ⟨fun _ _ _ _ _ way => call_takes.2 (call_takes.1 way), ?_, ?_, ?_⟩
  · intro before t r k t' r' k' way way' same
    obtain ⟨-, front, mark, name, close, held, opens, -, plain, closes, rfl, rfl⟩ := call_takes.1 way
    obtain ⟨-, front', mark', name', close', held', opens', -, plain', closes', rfl, rfl⟩ := call_takes.1 way'
    have texts : ("stage".toList ++ front) ++ mark :: (name ++ close :: r) =
        ("stage".toList ++ front') ++ mark' :: (name' ++ close' :: r') := by simpa using same
    obtain ⟨fronts, rfl, names⟩ := Text.cut_unique texts (word.append held.unquoted) (word.append held'.unquoted) opens opens'
    obtain ⟨rfl, rfl, -⟩ := Text.cut_unique names plain plain' closes closes'
    rw [fronts]
    exact ⟨rfl, rfl⟩
  · intro before rest k way
    obtain ⟨-, front, mark, name, close, -, -, -, -, -, none, -⟩ := call_takes.1 way
    cases none
  · intro before t r k before' x t' y r' k' way way' split
    -- Both marks of the larger one are those of the smaller one, so that it ends with the same.
    obtain ⟨both, front, close, ends, closes⟩ := call_quotes way
    obtain ⟨both', -⟩ := call_quotes way'
    rw [split, List.countP_append, List.countP_append, both'] at both
    rcases List.eq_nil_or_concat y with rfl | ⟨z, last, rfl⟩
    · rfl
    · rw [ends, List.concat_eq_append, ← List.append_assoc, ← List.append_assoc] at split
      obtain ⟨-, tail⟩ := List.append_inj' split rfl
      obtain rfl : close = last := List.head_eq_of_cons_eq tail
      rw [List.concat_eq_append, List.countP_append, List.countP_cons_of_pos closes] at both
      omega

theorem stage_before_eq (s : Text) (i : Nat) : stageBefore s i =
    (((((stageCall.allMatches s).map (Match.tell 1)).filter fun t => t.2.1 ≤ i).getLast?).map (·.2.2)).getD [] := by
  have front : ((stageCall.allMatches s).map (Match.tell 1)).filter (fun t => t.2.1 ≤ i) =
      (stageCall.allMatches (s.take i)).map (Match.tell 1) := by
    rw [call_definite.matches_in_front 1 s i, List.filter_map]
    rfl
  rw [front, List.getLast?_map, stageBefore]
  cases (stageCall.allMatches (s.take i)).getLast? <;> rfl

end Call

section Blocks

/-- What stands between the call of a stage and its body. -/
def stageOpening : Pattern := .blanks ++ ")" ++ .blanks ++ "\x7b"

/-- A stage with the block it heads: where its call begins and ends, its name and its body. -/
structure StageBlock where
  start : Nat
  stop : Nat
  name : Text
  block : Script.Block
deriving DecidableEq

def StageBlock.told (w : StageBlock) : Nat × Nat × Text := (w.start, w.stop, w.name)

/-- The block that a call heads. -/
def stageBlock? (m : Match) : Option StageBlock :=
  (stageOpening.matchStart m.after.ahead).map fun o =>
    ⟨m.start, m.stop, m.captured 1, m.stop + o.stop, Script.enclosed '\x7b' '\x7d' o.after.ahead⟩

def stageBlocks (s : Text) : List StageBlock := (stageCall.allMatches s).filterMap stageBlock?

/-- The stage whose block is the least around a block. -/
structure Innermost (s : Text) (b : Script.Block) (w : StageBlock) : Prop where
  listed : w ∈ stageBlocks s
  encloses : b.Within w.block
  least : ∀ v ∈ stageBlocks s, b.Within v.block → w.block.Within v.block

instance (s : Text) (b : Script.Block) (w : StageBlock) : Decidable (Innermost s b w) :=
  decidable_of_iff (w ∈ stageBlocks s ∧ b.Within w.block ∧ ∀ v ∈ stageBlocks s, b.Within v.block → w.block.Within v.block)
    ⟨fun ⟨listed, encloses, least⟩ => ⟨listed, encloses, least⟩, fun held => ⟨held.listed, held.encloses, held.least⟩⟩

/-- The stages that are called behind a stage and before a block. -/
def calledBetween (s : Text) (w : StageBlock) (b : Script.Block) : List StageBlock :=
  (stageBlocks s).filter fun v => w.stop ≤ v.start && v.stop ≤ b.offset

/-- Every call of a stage heads a block, and every block of conditions stands in one of them. -/
structure Staged (s : Text) : Prop where
  headed : ∀ m ∈ stageCall.allMatches s, (stageBlock? m).isSome = true
  bare : ∀ w ∈ stageBlocks s, w.block.Bare s
  inside : ∀ b ∈ Script.blocks "when" s, ∃ w ∈ stageBlocks s, b.Within w.block

instance (s : Text) : Decidable (Staged s) :=
  decidable_of_iff ((∀ m ∈ stageCall.allMatches s, (stageBlock? m).isSome = true) ∧ (∀ w ∈ stageBlocks s, w.block.Bare s) ∧
      ∀ b ∈ Script.blocks "when" s, ∃ w ∈ stageBlocks s, b.Within w.block)
    ⟨fun ⟨headed, bare, inside⟩ => ⟨headed, bare, inside⟩, fun held => ⟨held.headed, held.bare, held.inside⟩⟩

variable {s : Text} {b : Script.Block} {m : Match} {v w : StageBlock}

theorem block_told (found : stageBlock? m = some w) : w.told = m.tell 1 := by
  obtain ⟨o, -, rfl⟩ := Option.map_eq_some_iff.1 found
  rfl

theorem Staged.told (staged : Staged s) :
    (stageBlocks s).map StageBlock.told = (stageCall.allMatches s).map (Match.tell 1) := by
  have told : ∀ m ∈ stageCall.allMatches s, (stageBlock? m).map StageBlock.told = some (m.tell 1) := by
    intro m listed
    obtain ⟨w, found⟩ := Option.isSome_iff_exists.1 (staged.headed m listed)
    rw [found, Option.map_some, block_told found]
  rw [stageBlocks, List.map_filterMap, List.filterMap_congr told, List.filterMap_eq_map']

theorem stage_block_placed (listed : w ∈ stageBlocks s) :
    w.start < w.stop ∧ w.stop ≤ w.block.offset ∧ w.block.Placed s := by
  obtain ⟨m, called, found⟩ := List.mem_filterMap.1 listed
  obtain ⟨o, opened, rfl⟩ := Option.map_eq_some_iff.1 found
  obtain ⟨front, taken, rest, k, call⟩ := all_matches_found called
  obtain ⟨taken', rest', k', opening⟩ := @match_found stageOpening [] m.after.ahead o opened
  refine ⟨call_definite.start_lt_stop call, Nat.le_add_right _ _, ?_⟩
  have shape : stageOpening = blanks ++ exactly [')'] ++ blanks ++ exactly ['\x7b'] := rfl
  have way := opening.way
  rw [shape] at way
  obtain ⟨head, -, rfl⟩ := then_exactly.1 way
  refine ⟨front ++ taken ++ head, rest', ?_, ?_⟩
  · have whole : m.after.ahead = head ++ ['\x7b'] ++ rest' := opening.whole
    rw [call.whole, ← call.after, whole]
    simp only [List.append_assoc, List.singleton_append]
  · rw [opening.after, opening.stop, call.stop]
    simp only [List.length_append, List.length_nil, List.length_singleton, Nat.zero_add, Nat.add_assoc]

theorem stage_blocks_ordered (s : Text) : (stageBlocks s).Pairwise fun v w => v.stop ≤ w.start := by
  refine (matches_ordered stageCall s).filterMap stageBlock? fun m n apart v found w found' => ?_
  obtain ⟨o, -, rfl⟩ := Option.map_eq_some_iff.1 found
  obtain ⟨o', -, rfl⟩ := Option.map_eq_some_iff.1 found'
  exact apart

theorem Staged.innermost (staged : Staged s) (listed : b ∈ Script.blocks "when" s) : ∃ w, Innermost s b w := by
  let candidates := (stageBlocks s).toFinset.filter fun w => b.Within w.block
  have mem {w : StageBlock} : w ∈ candidates ↔ w ∈ stageBlocks s ∧ b.Within w.block := by
    rw [Finset.mem_filter, List.mem_toFinset]
  obtain ⟨some, own, within⟩ := staged.inside b listed
  -- Of the blocks around it the one that begins last lies in all the others.
  obtain ⟨w, chosen, last⟩ := candidates.exists_max_image (·.block.offset) ⟨some, mem.2 ⟨own, within⟩⟩
  obtain ⟨listed, held⟩ := mem.1 chosen
  refine ⟨w, listed, held, fun v listed' held' => ?_⟩
  obtain ⟨-, -, placed⟩ := stage_block_placed listed
  obtain ⟨-, -, placed'⟩ := stage_block_placed listed'
  -- It begins in the body of the other one, as the block of conditions that both are around goes on there.
  have inside : w.block.offset ≤ v.block.stop :=
    held.1.trans ((Nat.le_add_right b.offset b.body.length).trans held'.2)
  exact Script.block_nests placed' (staged.bare v listed') placed (staged.bare w listed)
    (last v (mem.2 ⟨listed', held'⟩)) inside

theorem called_before (listed : w ∈ stageBlocks s) (before : w.stop ≤ b.offset) :
    ((stageBlocks s).filter fun v => v.stop ≤ b.offset).getLast? = some ((calledBetween s w b).getLast?.getD w) := by
  have ordered := stage_blocks_ordered s
  have early : ∀ v ∈ stageBlocks s, v.start < v.stop := fun v listed => (stage_block_placed listed).1
  unfold calledBetween
  -- The list is cut at the stage: all before it were called earlier, and all after it later.
  obtain ⟨front, back, split⟩ := List.append_of_mem listed
  rw [split] at ordered early ⊢
  obtain ⟨-, ordered, apart⟩ := List.pairwise_append.1 ordered
  have behind := (List.pairwise_cons.1 ordered).1
  have own := early w (List.mem_append_right front List.mem_cons_self)
  have ahead : (front.filter fun v => w.stop ≤ v.start && v.stop ≤ b.offset) = [] := by
    refine List.filter_eq_nil_iff.2 fun v member => ?_
    have order := apart v member w List.mem_cons_self
    have filled := early v (List.mem_append_left _ member)
    simp only [Bool.and_eq_true, decide_eq_true_eq]
    omega
  have after : (back.filter fun v => w.stop ≤ v.start && v.stop ≤ b.offset) = back.filter fun v => v.stop ≤ b.offset := by
    refine List.filter_congr fun v member => ?_
    rw [decide_eq_true (behind v member), Bool.true_and]
  rw [List.filter_append, List.filter_append, ahead, List.nil_append, List.filter_cons_of_pos (by simpa using before),
    List.filter_cons_of_neg (by simp only [Bool.and_eq_true, decide_eq_true_eq]; omega), after, List.getLast?_append,
    List.getLast?_cons]
  rfl

-- The stage told for a block is the one called last before it, be it a stage around the block or one that ended
-- before.
theorem Staged.stage_before (staged : Staged s) (listed : w ∈ stageBlocks s) (encloses : b.Within w.block) :
    stageBefore s b.offset = ((calledBetween s w b).getLast?.getD w).name := by
  have before : w.stop ≤ b.offset := (stage_block_placed listed).2.1.trans encloses.1
  have told : ((stageCall.allMatches s).map (Match.tell 1)).filter (fun t => t.2.1 ≤ b.offset) =
      ((stageBlocks s).filter fun v => v.stop ≤ b.offset).map StageBlock.told := by
    rw [← staged.told, List.filter_map]
    rfl
  rw [stage_before_eq, told, List.getLast?_map, called_before listed before]
  rfl

/-- Every guard of a block has the name of the stage called last before the block: the innermost one around it, or one
    that was called in between. So it is the innermost one just when the last of those has no other name. -/
theorem guard_stage_iff (staged : Staged s) : guards s = (Script.blocks "when" s).flatMap (blockGuards s) ∧
    ∀ b ∈ Script.blocks "when" s, (∃ w, Innermost s b w) ∧ ∀ w, Innermost s b w → ∀ g ∈ blockGuards s b,
      g.stage = ((calledBetween s w b).getLast?.getD w).name ∧
        (g.stage = w.name ↔ ∀ v ∈ (calledBetween s w b).getLast?, v.name = w.name) := by
  refine ⟨guards_eq s, fun b listed => ⟨staged.innermost listed, fun w innermost g given => ?_⟩⟩
  obtain ⟨c, -, rfl⟩ := List.mem_map.1 given
  have told : (guardOf s b c).stage = ((calledBetween s w b).getLast?.getD w).name :=
    staged.stage_before innermost.listed innermost.encloses
  refine ⟨told, ?_⟩
  rw [told]
  cases (calledBetween s w b).getLast? <;> simp

/-- A stage in another one, each with a condition of its own. -/
def nestedStages : Text :=
  "stage('Release') \x7b when \x7b branch 'main' \x7d stage('Ship') \x7b when \x7b branch 'ship' \x7d \x7d \x7d".toList

theorem nested_stages_told : ∃ b ∈ Script.blocks "when" nestedStages, ∃ w, Innermost nestedStages b w ∧
    w.name = "Ship".toList ∧ ∀ g ∈ blockGuards nestedStages b, g.stage = w.name := by
  let b : Script.Block := ⟨64, " branch 'ship' ".toList⟩
  let w : StageBlock := ⟨42, 54, "Ship".toList, 57, " when \x7b branch 'ship' \x7d ".toList⟩
  have facts : Staged nestedStages ∧ b ∈ Script.blocks "when" nestedStages ∧ Innermost nestedStages b w ∧
      ∀ v ∈ (calledBetween nestedStages w b).getLast?, v.name = w.name := by decide +kernel
  obtain ⟨staged, listed, innermost, last⟩ := facts
  refine ⟨b, listed, w, innermost, rfl, fun g given => ?_⟩
  exact ((((guard_stage_iff staged).2 b listed).2 w innermost g given).2).2 last

/-- A script as it should be: without comments and with literals and braces closed, where stages and conditions are
    called for themselves alone. -/
structure Orderly (s : Text) : Prop extends Staged s where
  stripped : Script.stripComments s = s
  balanced : Script.Balanced s
  called : ∀ m ∈ stageCall.allMatches s, (Script.code s)[m.start]? = some (some 's')
  conditioned : ∀ b ∈ Script.blocks "when" s, b.Bare s

instance (s : Text) : Decidable (Orderly s) :=
  decidable_of_iff (Staged s ∧ Script.stripComments s = s ∧ Script.Balanced s ∧
      (∀ m ∈ stageCall.allMatches s, (Script.code s)[m.start]? = some (some 's')) ∧ ∀ b ∈ Script.blocks "when" s, b.Bare s)
    ⟨fun ⟨staged, stripped, balanced, called, conditioned⟩ => ⟨staged, stripped, balanced, called, conditioned⟩,
      fun held => ⟨held.toStaged, held.stripped, held.balanced, held.called, held.conditioned⟩⟩

/-- A stage with another one that ends before the condition. -/
def preparedStage : Text := ("stage('Deploy') \x7b stages \x7b stage('Prepare') \x7b steps \x7b sh 'make' \x7d \x7d \x7d " ++
  "when \x7b branch 'main' \x7d \x7d").toList

/-- The condition of a stage is told for the stage in it that has ended. -/
theorem prepared_stage_mistaken : Orderly preparedStage ∧ ∃ b ∈ Script.blocks "when" preparedStage,
    ∃ w, Innermost preparedStage b w ∧ w.name = "Deploy".toList ∧
      ∃ g ∈ guards preparedStage, g ∈ blockGuards preparedStage b ∧ g.stage = "Prepare".toList := by
  let b : Script.Block := ⟨76, " branch 'main' ".toList⟩
  have facts : Orderly preparedStage ∧ b ∈ Script.blocks "when" preparedStage ∧
      (∃ w ∈ stageBlocks preparedStage, Innermost preparedStage b w ∧ w.name = "Deploy".toList) ∧
      conditionsIn b.body ≠ [] ∧ stageBefore preparedStage b.offset = "Prepare".toList := by decide +kernel
  obtain ⟨orderly, listed, ⟨w, -, innermost, name⟩, conditions, stage⟩ := facts
  obtain ⟨c, member⟩ := List.exists_mem_of_ne_nil _ conditions
  have given : guardOf preparedStage b c ∈ blockGuards preparedStage b := List.mem_map_of_mem (List.mem_mergeSort.2 member)
  refine ⟨orderly, b, listed, w, innermost, name, _, ?_, given, stage⟩
  rw [guards_eq]
  exact List.mem_flatMap.2 ⟨b, listed, given⟩

end Blocks
end PipelineMigration.Feature
