import Mathlib.Data.List.DropRight
import Mathlib.Data.List.Infix
import PipelineMigration.Proofs.Credential.KeyForm
import PipelineMigration.Proofs.Keyed
set_option autoImplicit false

/- Which variables are planned, and under which keys. A key as it is made for a name never has the prefix that the
   target keeps for itself; the key of a part is not looked at again, and has it when the name is the prefix without its
   underscore. Every credential asks for one variable, or for its parts where it has any; the first that asks for a key
   gets it. So the keys depend on what is asked for and not on the order, though what stands under a key does. -/
namespace PipelineMigration

namespace KeyPolicy

def reserved : Text := ({} : KeyPolicy).reservedPrefix

/-- The reserved prefix without its underscore. -/
def reservedStem : Text := "CI"

theorem reserved_eq : reserved = reservedStem ++ ['_'] := rfl

theorem cut_begins (n : Int) (key : Text) : dropUnderscores (upTo n key) <+: key := by
  have taken : upTo n key <+: key := by
    unfold upTo
    split <;> exact List.take_prefix _ _
  exact ( List.rdropWhile_prefix _ _).trans taken

-- A key that does not have the prefix is cut down to the stem only when it is the stem.
theorem cut_eq_stem_iff (n : Int) (key : Text) (room : 3 ≤ n) (free : ¬ reserved <+: key) :
    dropUnderscores (upTo n key) = reservedStem ↔ key = reservedStem := by
  have taken : upTo n key = key.take n.toNat := by simp only [upTo, show 0 ≤ n by omega, if_true]
  constructor
  · intro cut
    have parts : reservedStem ++ (upTo n key).rtakeWhile (· == '_') = upTo n key := by
      rw [← cut]
      exact List.rdropWhile_append_rtakeWhile
    rcases ends : (upTo n key).rtakeWhile (· == '_') with _ | ⟨c, rest⟩
    · rw [ends, List.append_nil, taken] at parts
      have short : 2 = (key.take n.toNat).length := congrArg List.length parts
      rw [List.length_take] at short
      have whole : key.length ≤ n.toNat := by omega
      rwa [List.take_of_length_le whole, eq_comm] at parts
    · have mark : c = '_' := by
        have held := List.mem_rtakeWhile_imp (ends ▸ List.mem_cons_self (a := c) (l := rest))
        simpa using held
      refine absurd ?_ free
      have begins : reserved <+: upTo n key := ⟨rest, by rw [← parts, ends, mark, reserved_eq]; simp⟩
      exact begins.trans (taken ▸ List.take_prefix _ _)
  · rintro rfl
    have whole : upTo n reservedStem = reservedStem := by
      rw [taken]
      exact List.take_of_length_le (by simp [reservedStem]; omega)
    rw [whole]
    rfl

-- The three rules of `guardStart`, in the order in which it applies them.
def nameEmpty (key : Text) : Text := if key.isEmpty then fallbackKey else key
def markDigit (key : Text) : Text := if key.head?.any Text.isDigit then "VAR_".toList ++ key else key
def markReserved (key : Text) : Text := if reserved.isPrefixOf key then "APP_".toList ++ key else key

theorem guard_start_eq (key : Text) : guardStart {} key = markReserved (markDigit (nameEmpty key)) := rfl

theorem name_empty_eq_stem_iff (key : Text) : nameEmpty key = reservedStem ↔ key = reservedStem := by
  unfold nameEmpty
  split
  · rename_i empty
    rw [List.isEmpty_iff.1 empty]
    decide
  · rfl

theorem mark_digit_eq_stem_iff (key : Text) : markDigit key = reservedStem ↔ key = reservedStem := by
  unfold markDigit
  split
  · rename_i digit
    refine ⟨fun same => absurd (List.cons.inj same).1 (by decide), ?_⟩
    rintro rfl
    exact absurd digit (by decide)
  · rfl

theorem mark_reserved_eq_stem_iff (key : Text) : markReserved key = reservedStem ↔ key = reservedStem := by
  unfold markReserved
  split
  · rename_i marked
    refine ⟨fun same => absurd (List.cons.inj same).1 (by decide), ?_⟩
    rintro rfl
    exact absurd marked (by decide)
  · rfl

theorem mark_reserved_free (key : Text) : ¬ reserved <+: markReserved key := by
  unfold markReserved
  split
  · exact fun ⟨_, same⟩ => absurd (List.cons.inj same).1 (by decide)
  · rename_i plain
    exact fun begins => plain (List.isPrefixOf_iff_prefix.2 begins)

theorem guard_start_free (key : Text) : ¬ reserved <+: guardStart {} key := mark_reserved_free _

theorem guard_start_eq_stem_iff (key : Text) : guardStart {} key = reservedStem ↔ key = reservedStem := by
  rw [guard_start_eq, mark_reserved_eq_stem_iff, mark_digit_eq_stem_iff, name_empty_eq_stem_iff]

theorem key_free (raw : Text) : ¬ reserved <+: key {} raw := by
  refine key_holds (P := fun key => ¬ reserved <+: key) (by decide) ?_
  exact fun begins => guard_start_free _ (begins.trans (cut_begins _ _))

theorem key_eq_stem_iff (raw : Text) : key {} raw = reservedStem ↔ joinRuns raw = reservedStem := by
  have cut := cut_eq_stem_iff 255 (guardStart {} (joinRuns raw)) (by decide) (guard_start_free _)
  rw [← guard_start_eq_stem_iff (joinRuns raw), ← cut]
  unfold key
  dsimp only
  split
  · rename_i empty
    rw [List.isEmpty_iff.1 empty]
    decide
  · rfl

-- Where a key does not have the prefix, an ending joined on gives it only to the stem.
theorem joined_reserved_iff (key ending : Text) (free : ¬ reserved <+: key) :
    reserved <+: key ++ '_' :: ending ↔ key = reservedStem := by
  constructor
  · intro begins
    rcases List.prefix_or_prefix_of_prefix begins (List.prefix_append key _) with inside | short
    · exact absurd inside free
    · rw [reserved_eq, List.prefix_concat_iff] at short
      rcases short with whole | short
      · exact absurd (whole ▸ List.prefix_rfl) free
      · obtain ⟨_, whole⟩ := begins
        have start : key ∈ [[], ['C'], reservedStem] := (List.mem_inits key reservedStem).2 short
        simp only [List.mem_cons, List.not_mem_nil, or_false] at start
        rcases start with rfl | rfl | stem
        · exact absurd (List.cons.inj whole).1 (by decide)
        · exact absurd (List.cons.inj (List.cons.inj whole).2).1 (by decide)
        · exact stem
  · rintro rfl
    exact ⟨ending, by simp [reserved_eq]⟩

theorem child_key_reserved_iff (base ending : Text) (short : ending.length ≤ 251)
    (free : ¬ reserved <+: base) : reserved <+: childKey {} base ending ↔ base = reservedStem := by
  have room : (3 : Int) ≤ 255 - ending.length - 1 := by omega
  rw [← cut_eq_stem_iff _ base room free]
  unfold childKey
  have cutFree : ¬ reserved <+: dropUnderscores (upTo (255 - ending.length - 1) base) :=
    fun begins => free (begins.trans (cut_begins _ _))
  exact joined_reserved_iff _ _ cutFree

end KeyPolicy

namespace Credential

open KeyPolicy

-- The name that the key of a credential is made for.
def wantedName (options : PlanOptions) (hit : CredentialHit) : Text :=
  givenOr ((Keyed.get? hit.sourceId options.customMappings).getD {}).key hit.sourceId

theorem classifier_endings_short (hit : CredentialHit) :
    ∀ ending ∈ (Classifier.of hit).children, ending.1.length ≤ 251 :=
  classifier_held (P := fun c => ∀ ending ∈ c.children, ending.1.length ≤ 251) (by decide) (by decide) hit

-- Of the variables of one credential, only parts can have the prefix, and only those of a credential
-- whose name comes down to the stem.
theorem planned_reserved_iff (options : PlanOptions) (hit : CredentialHit) :
    (∃ v ∈ (planned {} options hit).specs, reserved <+: v.key) ↔
      (Classifier.of hit).children ≠ [] ∧ joinRuns (wantedName options hit) = reservedStem := by
  have short := classifier_endings_short hit
  unfold PlannedCredential.specs planned
  dsimp only
  rw [List.isEmpty_map]
  cases children : (Classifier.of hit).children with
  | nil =>
    simp only [List.isEmpty_nil, if_true, List.mem_singleton, exists_eq_left, ne_eq, not_true_eq_false,
      false_and, iff_false]
    exact key_free _
  | cons first rest =>
    rw [children] at short
    have parts (ending : Text × Text) (member : ending ∈ first :: rest) :=
      (child_key_reserved_iff _ ending.1 (short ending member) (key_free (wantedName options hit))).trans
        (key_eq_stem_iff _)
    simp only [List.isEmpty_cons, Bool.false_eq_true, if_false, List.mem_map, ne_eq, reduceCtorEq,
      not_false_eq_true, true_and]
    constructor
    · rintro ⟨_, ⟨ending, member, rfl⟩, begins⟩
      exact (parts ending member).1 begins
    · exact fun stem => ⟨_, ⟨first, List.mem_cons_self, rfl⟩,
        (parts first List.mem_cons_self).2 stem⟩

-- A plan's variables have the keys that its credentials ask for, each once.
theorem spec_keys_perm (plan : List PlannedCredential) :
    ((specs plan).map (·.key)).Perm (Keyed.distinct ((plan.flatMap (·.specs)).map (·.key))) :=
  Keyed.sorted_firsts_keys VariableSpec.key _ _

theorem spec_keys (plan : List PlannedCredential) (key : Text) :
    (∃ v ∈ specs plan, v.key = key) ↔ ∃ p ∈ plan, ∃ v ∈ p.specs, v.key = key := by
  rw [← List.mem_map, (spec_keys_perm plan).mem_iff, Keyed.mem_distinct, List.mem_map]
  simp only [List.mem_flatMap]
  exact ⟨fun ⟨v, ⟨p, among, own⟩, same⟩ => ⟨p, among, v, own, same⟩,
    fun ⟨p, among, v, own, same⟩ => ⟨v, ⟨p, among, own⟩, same⟩⟩

theorem resolve_reserved_iff (options : PlanOptions) (hits : List CredentialHit) :
    (∃ v ∈ resolve {} options hits, reserved <+: v.key) ↔
      ∃ hit ∈ hits, (Classifier.of hit).children ≠ [] ∧ joinRuns (wantedName options hit) = reservedStem := by
  have keys (key : Text) : (∃ v ∈ resolve {} options hits, v.key = key) ↔
      ∃ hit ∈ hits, ∃ v ∈ (planned {} options hit).specs, v.key = key := by
    unfold resolve plan
    rw [spec_keys]
    simp only [List.mem_map, exists_exists_and_eq_and]
  constructor
  · rintro ⟨v, member, begins⟩
    obtain ⟨hit, among, w, inside, same⟩ := (keys v.key).1 ⟨v, member, rfl⟩
    exact ⟨hit, among, (planned_reserved_iff options hit).1 ⟨w, inside, same ▸ begins⟩⟩
  · rintro ⟨hit, among, composite⟩
    obtain ⟨w, inside, begins⟩ := (planned_reserved_iff options hit).2 composite
    obtain ⟨v, member, same⟩ := (keys w.key).2 ⟨hit, among, w, inside, rfl⟩
    exact ⟨v, member, same ▸ begins⟩

/-- No key has the reserved prefix just when every credential of parts is named for more than the
    stem. -/
theorem resolve_avoids_reserved_iff (options : PlanOptions) (hits : List CredentialHit) :
    (∀ v ∈ resolve {} options hits, ¬ reserved <+: v.key) ↔
      ∀ hit ∈ hits, (Classifier.of hit).children ≠ [] →
        joinRuns (wantedName options hit) ≠ reservedStem := by
  have some := not_congr (resolve_reserved_iff options hits)
  simpa only [not_exists, not_and] using some

def stemHit : CredentialHit := { sourceId := "ci", line := 1, kind := .usernamePassword, matchedText := "ci" }

theorem stem_pair_reserved : ∃ v ∈ resolve {} {} [stemHit], reserved <+: v.key :=
  (resolve_reserved_iff {} [stemHit]).2 ⟨stemHit, List.mem_cons_self, by decide, by decide⟩

section Asked

variable (p : KeyPolicy) (options : PlanOptions)

/-- The variables that credentials ask for, in their order. -/
def asked (hits : List CredentialHit) : List VariableSpec :=
  hits.flatMap fun hit =>
    let plan := planned p options hit
    if plan.children = [] then [plan.own] else plan.children

variable (hits : List CredentialHit)

theorem asked_eq : asked p options hits = (plan p options hits).flatMap (·.specs) := by
  simp [asked, plan, PlannedCredential.specs, List.flatMap_map]

theorem resolve_eq : resolve p options hits =
    Keyed.sortedFirsts VariableSpec.key (asked p options hits) fun a b => Text.notAfter a.key b.key := by
  rw [asked_eq]
  rfl

theorem resolve_keys : ((resolve p options hits).map (·.key)).Perm (Keyed.distinct ((asked p options hits).map (·.key))) := by
  rw [resolve_eq]
  exact Keyed.sorted_firsts_keys VariableSpec.key _ _

theorem find_resolve (key : Text) :
    (resolve p options hits).find? (·.key == key) = (asked p options hits).find? (·.key == key) := by
  rw [resolve_eq]
  exact Keyed.find_sorted_firsts VariableSpec.key _ _ key

theorem resolve_apart : ((resolve p options hits).map (·.key)).Nodup :=
  (resolve_keys p options hits).nodup_iff.2 (Keyed.nodup_distinct _)

theorem resolve_increases : (resolve p options hits).Pairwise fun v w => Text.before v.key w.key = true := by
  have ordered : (resolve p options hits).Pairwise fun v w => Text.notAfter v.key w.key = true := by
    rw [resolve_eq]
    refine List.pairwise_mergeSort ?_ ?_ _
    · exact fun _ _ _ => Text.notAfter_trans
    · exact fun v w => Text.notAfter_total v.key w.key
  have apart := List.pairwise_map.1 (resolve_apart p options hits)
  exact ordered.imp₂ (fun _ _ => Text.before_of_not_after) apart

theorem resolve_first : ∀ v ∈ resolve p options hits, (asked p options hits).find? (·.key == v.key) = some v := by
  intro v member
  rw [← find_resolve]
  exact (Keyed.find_keyed_iff (resolve_apart p options hits)).2 ⟨member, rfl⟩

theorem resolve_childless : ∀ v ∈ resolve p options hits, ∃ hit ∈ hits,
    v ∈ (planned p options hit).children ∨ (planned p options hit).children = [] ∧ v = (planned p options hit).own := by
  intro v member
  obtain ⟨hit, among, inside⟩ := List.mem_flatMap.1 (List.mem_of_find?_eq_some (resolve_first p options hits v member))
  refine ⟨hit, among, ?_⟩
  dsimp only at inside
  split at inside
  · rename_i childless
    exact .inr ⟨childless, List.mem_singleton.1 inside⟩
  · exact .inl inside

theorem resolve_keys_perm {others : List CredentialHit} (perm : others.Perm hits) :
    (resolve p options others).map (·.key) = (resolve p options hits).map (·.key) := by
  have same : ((resolve p options others).map (·.key)).Perm ((resolve p options hits).map (·.key)) := by
    apply (List.perm_ext_iff_of_nodup (resolve_apart p options others) (resolve_apart p options hits)).2
    intro key
    rw [(resolve_keys p options others).mem_iff, (resolve_keys p options hits).mem_iff, Keyed.mem_distinct,
      Keyed.mem_distinct]
    exact ((perm.flatMap_right _).map _).mem_iff
  have increases (hits : List CredentialHit) : ((resolve p options hits).map (·.key)).Pairwise fun a b => Text.before a b = true :=
    List.pairwise_map.2 (resolve_increases p options hits)
  -- What is strictly sorted and holds the same keys is the same.
  apply List.Perm.eq_of_pairwise ?_ (increases others) (increases hits) same
  intro a b _ _ forth back
  exact absurd (Text.before_trans forth back) (by simp [Text.before_irrefl])

/-- Of all that is asked for, each key is planned once, in the order of keys, for the first that asks; what has parts is
    not planned itself; and another order of credentials plans the same keys. -/
theorem resolve_keeps_first : ((resolve p options hits).Pairwise fun v w => Text.before v.key w.key = true) ∧
    (∀ key, key ∈ (resolve p options hits).map (·.key) ↔ key ∈ (asked p options hits).map (·.key)) ∧
    (∀ v ∈ resolve p options hits, (asked p options hits).find? (·.key == v.key) = some v) ∧
    (∀ v ∈ resolve p options hits, ∃ hit ∈ hits, v ∈ (planned p options hit).children ∨
      (planned p options hit).children = [] ∧ v = (planned p options hit).own) ∧
    ∀ others, others.Perm hits → (resolve p options others).map (·.key) = (resolve p options hits).map (·.key) := by
  refine ⟨resolve_increases p options hits, ?_, resolve_first p options hits, resolve_childless p options hits, ?_⟩
  · intro key
    rw [(resolve_keys p options hits).mem_iff, Keyed.mem_distinct]
  · intro others perm
    exact resolve_keys_perm p options hits perm

-- The first has parts, and one of them is asked for by the second as well.
def pairHit : CredentialHit := { sourceId := "deploy", line := 1, kind := .usernamePassword, matchedText := "deploy" }
def partHit : CredentialHit := { sourceId := "deploy_user", line := 2, kind := .string, matchedText := "deploy_user" }

theorem deploy_pair_first : [partHit, pairHit].Perm [pairHit, partHit] ∧
    (resolve {} {} [partHit, pairHit]).map (·.key) = (resolve {} {} [pairHit, partHit]).map (·.key) ∧
    ((asked {} {} [pairHit, partHit]).find? (·.key == "DEPLOY_USER".toList)).map (·.sourceId) = some "deploy".toList ∧
    ((asked {} {} [partHit, pairHit]).find? (·.key == "DEPLOY_USER".toList)).map (·.sourceId) =
      some "deploy_user".toList := by
  have swapped : [partHit, pairHit].Perm [pairHit, partHit] := List.Perm.swap _ _ _
  obtain ⟨-, -, -, -, kept⟩ := resolve_keeps_first {} {} [pairHit, partHit]
  refine ⟨swapped, kept _ swapped, ?_, ?_⟩ <;> decide +kernel

end Asked

end Credential

end PipelineMigration
