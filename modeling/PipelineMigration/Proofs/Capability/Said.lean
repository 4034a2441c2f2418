import PipelineMigration.Capability.Resolution
import PipelineMigration.Job.Capability
import PipelineMigration.Proofs.Configuration.Drawing
import PipelineMigration.Proofs.Keyed
import PipelineMigration.Proofs.Pattern.Consumed
import PipelineMigration.Proofs.Yaml.Remark
set_option autoImplicit false

/- What is said of capabilities stands on one line each: their ids come from names in a script or from the tables,
   and all else that is said comes from the tables. Verdicts have ids of their own, and what they include are templates
   of the catalog. -/
namespace PipelineMigration

open Yaml (OneLine isBreak)

namespace Capability

/-- The visible characters of ASCII and the space. -/
def isPlain (c : Char) : Bool := 32 ≤ c.toNat && c.toNat < 127

def PlainName (s : Text) : Prop := ∀ c ∈ s, isPlain c = true

instance (s : Text) : Decidable (PlainName s) := inferInstanceAs (Decidable (∀ c ∈ s, isPlain c = true))

theorem PlainName.line {s : Text} (plain : PlainName s) : OneLine s := by
  intro c member
  refine Bool.eq_false_iff.2 fun breaks => ?_
  have visible := plain c member
  simp only [isBreak, Bool.or_eq_true, beq_iff_eq] at breaks
  rcases breaks with (((rfl | rfl) | rfl) | rfl) | rfl <;> cases visible

-- A literal by its characters.
theorem plain_literal {s : String} {l : List Char} (same : s = String.ofList l) (plain : l.all isPlain = true) :
    PlainName s.toList := by
  rw [same, String.toList_ofList]
  exact List.all_eq_true.1 plain

theorem plain_append {a b : Text} : PlainName (a ++ b) ↔ PlainName a ∧ PlainName b := List.forall_mem_append

theorem plain_ascii {c : Char} (plain : isPlain c = true) : c.toNat < 128 := by
  have below : c.toNat < 127 := of_decide_eq_true (Bool.and_eq_true_iff.1 plain).2
  omega

theorem ascii_each {p : Char → Bool} (all : ∀ n : Fin 128, p (Char.ofNat n) = true) {c : Char} (ascii : c.toNat < 128) :
    p c = true := by
  have held := all ⟨c.toNat, ascii⟩
  rwa [Char.ofNat_toNat] at held

-- The small form of an ASCII text, letter by letter.
theorem lower_ascii {s : Text} (ascii : ∀ c ∈ s, c.toNat < 128) : s.lower = s.map Char.toLower := by
  have later (passed : Text) : Text.lowerAfter passed s = s.map Char.toLower := by
    induction s generalizing passed with
    | nil => rfl
    | cons c r ih =>
      obtain ⟨here, rest⟩ := List.forall_mem_cons.1 ascii
      have letter : (c == 'Σ') = false := beq_eq_false_iff_ne.2 fun same => by
        rw [same] at here
        exact absurd here (by decide)
      rw [Text.lowerAfter, letter, Text.lowerChar, if_pos here, ih rest]
      rfl
  exact later []

theorem lower_plain {s : Text} (plain : PlainName s) : PlainName s.lower := by
  have small {c : Char} (plain : isPlain c = true) : isPlain c.toLower = true := by
    have all : ∀ n : Fin 128, (!isPlain (Char.ofNat n) || isPlain (Char.ofNat n).toLower) = true := by decide +kernel
    have held := ascii_each (p := fun c => !isPlain c || isPlain c.toLower) all (plain_ascii plain)
    simpa [plain] using held
  rw [lower_ascii fun c member => plain_ascii (plain c member)]
  exact List.forall_mem_map.2 fun c member => small (plain c member)

theorem aliases_plain : ∀ a ∈ aliases, PlainName a.2 := by decide +kernel

theorem canonical_plain {name : Text} (plain : PlainName name) : PlainName (({} : Tables).canonical name) := by
  have small : PlainName (Text.trim name).lower := lower_plain fun c member => by
    refine plain c ?_
    exact (List.dropWhile_sublist _).subset (List.mem_reverse.1 ((List.dropWhile_sublist _).subset (List.mem_reverse.1 member)))
  unfold Tables.canonical
  dsimp only
  cases found : Keyed.get? (Text.trim name).lower ({} : Tables).aliases with
  | none => exact small
  | some other => exact aliases_plain _ (Keyed.mem_of_get? found)

section Names

/-- Letters, digits, underscores and hyphens. -/
def isNameChar (c : Char) : Bool := Text.isIdentifierRest c || c == '-'

def HasNameChars (s : Text) : Prop := ∀ c ∈ s, isNameChar c = true

instance (s : Text) : Decidable (HasNameChars s) := inferInstanceAs (Decidable (∀ c ∈ s, isNameChar c = true))

theorem name_ascii {c : Char} (named : isNameChar c = true) : c.toNat < 128 := by
  have below {d : Char} (top : c ≤ d) (ascii : d.toNat < 128) : c.toNat < 128 :=
    Nat.lt_of_le_of_lt (UInt32.le_iff_toNat_le.1 top) ascii
  simp only [isNameChar, Text.isIdentifierRest, Text.isAsciiLetter, Text.isAsciiDigit, Bool.or_eq_true, Bool.and_eq_true,
    decide_eq_true_eq, beq_iff_eq] at named
  rcases named with (((⟨-, top⟩ | ⟨-, top⟩) | ⟨-, top⟩) | rfl) | rfl
  · exact below top (by decide)
  · exact below top (by decide)
  · exact below top (by decide)
  · decide
  · decide

-- What holds of each of the first 128 characters that may stand in a name holds of all that may.
theorem name_each {p : Char → Bool} (all : ∀ n : Fin 128, (!isNameChar (Char.ofNat n) || p (Char.ofNat n)) = true)
    {c : Char} (named : isNameChar c = true) : p c = true := by
  have held := ascii_each (p := fun c => !isNameChar c || p c) all (name_ascii named)
  simpa [named] using held

theorem HasNameChars.plain {s : Text} (named : HasNameChars s) : PlainName s :=
  fun c member => name_each (p := isPlain) (by decide +kernel) (named c member)

end Names

section Hits

/-- Whether a signature is of a capability that it names itself, and by a proper name. -/
def namesItself (s : Signature) : Bool :=
  match s.target with
  | .fixed id => decide (HasNameChars id)
  | .named => false

-- Every signature is of a capability that it names itself, but the one for any block.
theorem signature_targets : ∀ s ∈ Signature.all, (∃ id, s.target = .fixed id ∧ HasNameChars id) ∨
    s.target = .named ∧ s.pattern = Signature.anyBlock := by
  have fixed : (Signature.credentialSignatures ++ Signature.resultSignatures ++ Signature.controlSignatures ++
      Signature.toolSignatures ++ Signature.transferSignatures).all namesItself = true := by decide +kernel
  intro s member
  rcases List.mem_append.1 member with own | any
  · left
    have held := List.all_eq_true.1 fixed s own
    unfold namesItself at held
    cases target : s.target with
    | fixed id =>
      rw [target] at held
      exact ⟨id, rfl, of_decide_eq_true held⟩
    | named =>
      rw [target] at held
      cases held
  · rw [List.mem_singleton.1 any]
    exact .inr ⟨rfl, rfl⟩

theorem any_block_holds : Signature.anyBlock.Holds fun _ c => isNameChar c = true := by
  simp only [Signature.anyBlock, Pattern.append_holds, Pattern.Holds, Pattern.append_uses, Pattern.Uses, Pattern.edge,
    Pattern.blanks, and_true, true_and]
  refine ⟨fun c letter => ?_, fun c named => named⟩
  rw [isNameChar, Text.isIdentifierRest, letter]
  rfl

theorem scan_all_found {t : Tables} {script : Text} {h : CapabilityHit} (member : h ∈ scanAll t script) :
    ∃ s ∈ t.signatures, ∃ line m n, m ∈ s.pattern.allMatches line ∧ t.hitOf? n s m = some h := by
  obtain ⟨⟨line, i⟩, -, found⟩ := List.mem_flatMap.1 member
  dsimp only at found
  split at found
  · cases found
  · obtain ⟨s, known, made⟩ := List.mem_flatMap.1 found
    obtain ⟨m, listed, made⟩ := List.mem_filterMap.1 made
    exact ⟨s, known, line, m, _, listed, made⟩

theorem hit_id {t : Tables} {s : Signature} {m : Match} {h : CapabilityHit} {n : Nat} (made : t.hitOf? n s m = some h) :
    (∃ id, s.target = .fixed id ∧ h.id = t.canonical id) ∨ s.target = .named ∧ h.id = t.canonical (m.captured 1) := by
  unfold Tables.hitOf? at made
  dsimp only at made
  split at made
  · rename_i id target
    exact .inl ⟨id, target, by rw [← Option.some.inj made]⟩
  · rename_i target
    split at made
    · exact .inr ⟨target, by rw [← Option.some.inj made]⟩
    · cases made

-- Every use that is found in a script is of a capability by a name of letters, digits, underscores and hyphens.
theorem scan_all_named {script : Text} {h : CapabilityHit} (member : h ∈ scanAll {} script) :
    ∃ name, HasNameChars name ∧ h.id = ({} : Tables).canonical name := by
  obtain ⟨s, known, line, m, n, listed, made⟩ := scan_all_found member
  rcases signature_targets s known with ⟨id, target, named⟩ | ⟨target, any⟩
  · rcases hit_id made with ⟨other, same, canonical⟩ | ⟨same, -⟩
    · obtain rfl := SignatureTarget.fixed.inj (same.symm.trans target)
      exact ⟨_, named, canonical⟩
    · cases same.symm.trans target
  · rcases hit_id made with ⟨other, same, -⟩ | ⟨-, canonical⟩
    · cases same.symm.trans target
    · rw [any] at listed
      exact ⟨_, Pattern.all_matches_captured _ any_block_holds line m listed 1, canonical⟩

theorem scan_all_plain (script : Text) : ∀ h ∈ scanAll {} script, PlainName h.id := by
  intro h member
  obtain ⟨name, named, canonical⟩ := scan_all_named member
  rw [canonical]
  exact canonical_plain named.plain

-- A first use is one of the uses.
theorem scan_sub {t : Tables} {script : Text} {h : CapabilityHit} (member : h ∈ scan t script) : h ∈ scanAll t script := by
  unfold scan at member
  rw [List.mem_mergeSort] at member
  obtain ⟨⟨id, hit⟩, kept, rfl⟩ := List.mem_map.1 member
  obtain ⟨other, among, pair⟩ := List.mem_map.1 (Keyed.mem_of_mem_firstOfPairs kept)
  obtain ⟨-, rfl⟩ := Prod.mk.inj pair
  exact among

theorem scan_plain (script : Text) : ∀ h ∈ scan {} script, PlainName h.id :=
  fun h member => scan_all_plain script h (scan_sub member)

end Hits

section Verdicts

theorem verdict_id (t : Tables) (id : Text) (hits : List CapabilityHit) : (verdictOf t id hits).id = id := by
  unfold verdictOf
  dsimp only
  split
  · rfl
  · rfl

-- No two verdicts are on one capability.
theorem resolve_ids_nodup (t : Tables) (hits : List CapabilityHit) : ((resolve t hits).map (·.id)).Nodup := by
  unfold resolve
  refine ((List.mergeSort_perm _ _).map _).nodup_iff.2 ?_
  rw [List.map_map]
  have ids : ((Keyed.groups (fun h : CapabilityHit => t.canonical h.id) hits).map (·.1)).Nodup := by
    rw [Keyed.keys_groups]
    exact Keyed.nodup_distinct _
  refine (congrArg List.Nodup ?_).mpr ids
  exact List.map_congr_left fun group _ => verdict_id t group.1 group.2

theorem catalog_templates : ∀ e ∈ catalog, ∀ t ∈ e.2.include_, Configuration.isTemplate t = true := by
  decide +kernel

-- What verdicts include are templates, by the tables that there are.
theorem resolve_templates (hits : List CapabilityHit) :
    ∀ t ∈ Configuration.templates (resolve {} hits), Configuration.isTemplate t = true := by
  intro t member
  rw [Configuration.templates, List.mem_mergeSort, Keyed.mem_distinct, List.mem_filterMap] at member
  obtain ⟨v, judged, included⟩ := member
  unfold resolve at judged
  rw [List.mem_mergeSort] at judged
  obtain ⟨group, -, rfl⟩ := List.mem_map.1 judged
  have own := (Option.filter_eq_some_iff.1 included).1
  unfold verdictOf at own
  dsimp only at own
  split at own
  · cases own
  · rename_i e found
    exact catalog_templates _ (Keyed.mem_of_get? found) t own

/-- A verdict says all it says on one line each. -/
structure Verdict.OnLines (v : Verdict) : Prop where
  id : OneLine v.id
  note : OneLine v.note
  equivalent : ∀ t ∈ v.equivalent, OneLine t
  alternative : ∀ t ∈ v.alternative, OneLine t

theorem catalog_plain : ∀ e ∈ catalog, PlainName e.2.note ∧ (∀ t ∈ e.2.equivalent, PlainName t) ∧
    ∀ t ∈ e.2.alternative, PlainName t := by
  simp only [catalog, nativeEntries, templatedEntries, limitedEntries, unsupportedEntries, List.forall_mem_append,
    List.forall_mem_cons, List.not_mem_nil, plain_append, Option.mem_def, Option.some.injEq, forall_eq', reduceCtorEq,
    false_implies, implies_true, and_true, true_and]
  and_intros <;> exact plain_literal rfl (by decide +kernel)

-- So do the verdicts on uses of capabilities with plain names.
theorem resolve_lines {hits : List CapabilityHit} (plain : ∀ h ∈ hits, PlainName h.id) :
    ∀ v ∈ resolve {} hits, Verdict.OnLines v := by
  intro v judged
  unfold resolve at judged
  rw [List.mem_mergeSort] at judged
  obtain ⟨group, among, rfl⟩ := List.mem_map.1 judged
  have known := List.mem_map_of_mem (f := Prod.fst) among
  rw [Keyed.keys_groups, Keyed.mem_distinct] at known
  obtain ⟨h, member, same⟩ := List.mem_map.1 known
  have id : OneLine group.1 := by
    rw [← same]
    exact (canonical_plain (plain h member)).line
  unfold verdictOf
  dsimp only
  split
  · exact ⟨id, (by decide : OneLine unknownNote), fun t none => (nomatch none), fun t none => (nomatch none)⟩
  · rename_i e found
    obtain ⟨note, equivalent, alternative⟩ := catalog_plain _ (Keyed.mem_of_get? found)
    exact ⟨id, note.line, fun t said => (equivalent t said).line, fun t said => (alternative t said).line⟩

end Verdicts

end Capability

section Comments

theorem Number.of_nat_line (n : Nat) : OneLine (Text.ofNat n) := by
  intro c member
  have digit : c.isDigit = true := Nat.isDigit_of_mem_toDigits (by decide) (by decide) member
  refine Bool.eq_false_iff.2 fun breaks => ?_
  simp only [isBreak, Bool.or_eq_true, beq_iff_eq] at breaks
  rcases breaks with (((rfl | rfl) | rfl) | rfl) | rfl <;> cases digit

theorem Number.pointed_line (places n : Nat) : OneLine (Number.pointed places n) := by
  have digits : OneLine (Number.padLeft (places + 1) (Text.ofNat n)) := by
    refine OneLine.append (fun c member => ?_) (Number.of_nat_line n)
    rw [List.eq_of_mem_replicate member]
    rfl
  have front (k : Nat) := digits.sub fun c member => List.mem_of_mem_take (i := k) member
  have back (k : Nat) := digits.sub fun c member => List.mem_of_mem_drop (i := k) member
  unfold Number.pointed
  dsimp only
  split
  · exact front _
  · exact (front _).append (OneLine.append (a := ['.']) (by decide) (back _))

theorem Number.fixed_line (places : Nat) (x : Float) : OneLine (Number.fixed places x) := by
  unfold Number.fixed
  split
  · unfold Number.nonFinite
    split
    · decide
    · split <;> decide
  · dsimp only
    split
    · exact OneLine.append (a := ['-']) (by decide) (Number.pointed_line _ _)
    · exact Number.pointed_line _ _

theorem SupportTier.name_line (tier : SupportTier) : OneLine tier.name := by
  cases tier <;> decide

-- The comments on a verdict stand on one line each.
theorem Job.verdict_comments_line {v : Verdict} (lines : Capability.Verdict.OnLines v) (threshold : Float) :
    ∀ s ∈ Job.verdictComments threshold v, OneLine s := by
  have target : OneLine ((said v.equivalent).getD ((said v.alternative).getD "no direct equivalent".toList)) := by
    cases equivalent : said v.equivalent with
    | some t => exact lines.equivalent t (Option.filter_eq_some_iff.1 equivalent).1
    | none => cases alternative : said v.alternative with
      | some t => exact lines.alternative t (Option.filter_eq_some_iff.1 alternative).1
      | none => decide
  have told : OneLine (v.id ++ " (".toList ++ v.tier.name ++ "): ".toList ++
      (said v.equivalent).getD ((said v.alternative).getD "no direct equivalent".toList) ++ ". ".toList ++ v.note) :=
    (((((lines.id.append (by decide)).append v.tier.name_line).append (by decide)).append target).append
      (by decide)).append lines.note
  intro s member
  rcases List.mem_append.1 member with doubt | own
  · split at doubt
    · rw [List.mem_singleton.1 doubt]
      refine OneLine.append (by decide) (OneLine.append (a := [' ']) (by decide) ?_)
      exact ((lines.id.append (by decide)).append (Number.fixed_line 2 _)).append (by decide)
    · cases doubt
  · rw [List.mem_singleton.1 own]
    exact told

end Comments

end PipelineMigration
