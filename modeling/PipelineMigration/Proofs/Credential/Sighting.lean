import PipelineMigration.Proofs.Keyed
import PipelineMigration.Proofs.Pattern.Front
import PipelineMigration.Proofs.Pattern.Slot
import PipelineMigration.Credential.Reference
set_option autoImplicit false

/- Where credentials are seen in a script. Each form of reference sees its matches from left to right, the forms are
   tried one after another, and what they see is sorted by lines; so that of one credential the first place counts, by
   line, then by form, then by position. -/
namespace PipelineMigration.CredentialReference

/-- A match of a form, which stands at some place among the forms. -/
structure Sighting where
  form : Nat
  reference : CredentialReference
  found : Match

/-- Whatever any form matches in a source. -/
def sightings (source : Text) : List Sighting :=
  all.zipIdx.flatMap fun (r, i) => (r.pattern.allMatches source).map fun m => ⟨i, r, m⟩

namespace Sighting

def sourceId (s : Sighting) : Text := Text.trim (s.found.captured 1)

/-- The line on which the name of the credential begins. -/
def line (source : Text) (s : Sighting) : Nat :=
  Text.lineAt source (((s.found.span? 1).map (·.start.index)).getD 0)

def hit (source : Text) (s : Sighting) : CredentialHit :=
  ⟨s.sourceId, s.line source, s.reference.kind, Text.squeeze s.found.text, s.reference.description⟩

/-- By form, and by position where the form is the same. -/
def Precedes (s t : Sighting) : Prop := s.form < t.form ∨ s.form = t.form ∧ s.found.start < t.found.start

/-- By line, then by form, then by position. -/
def Before (source : Text) (s t : Sighting) : Prop :=
  s.line source < t.line source ∨ s.line source = t.line source ∧ s.Precedes t

end Sighting

-- Sorted by rank alone, members of one rank stay in their order.
theorem sorted_ties {α : Type} {R : α → α → Prop} (rank : α → Nat) {members : List α} (ordered : members.Pairwise R) :
    (members.mergeSort fun a b => rank a ≤ rank b).Pairwise fun a b => rank a < rank b ∨ rank a = rank b ∧ R a b := by
  have trans (a b c : α) (ab : decide (rank a ≤ rank b) = true) (bc : decide (rank b ≤ rank c) = true) :
      decide (rank a ≤ rank c) = true := by
    simp only [decide_eq_true_eq] at *
    omega
  have total (a b : α) : (decide (rank a ≤ rank b) || decide (rank b ≤ rank a)) = true := by
    simp only [Bool.or_eq_true, decide_eq_true_eq]
    omega
  have sorted := List.pairwise_mergeSort trans total members
  have perm := List.mergeSort_perm members fun a b => decide (rank a ≤ rank b)
  have ties (k : Nat) : (members.mergeSort fun a b => rank a ≤ rank b).filter (rank · == k) =
      members.filter (rank · == k) := by
    have level : (members.filter (rank · == k)).Pairwise fun a b => decide (rank a ≤ rank b) = true := by
      refine List.pairwise_of_forall_mem_list fun a first b second => ?_
      simp only [List.mem_filter, beq_iff_eq] at first second
      simp [first.2, second.2]
    have kept := (List.sublist_mergeSort trans total level List.filter_sublist).filter (rank · == k)
    rw [List.filter_filter] at kept
    simp only [Bool.and_self] at kept
    exact (kept.eq_of_length (perm.filter _).length_eq.symm).symm
  refine List.pairwise_iff_forall_sublist.2 fun {a b} among => ?_
  have weak : rank a ≤ rank b := of_decide_eq_true (List.pairwise_iff_forall_sublist.1 sorted among)
  rcases Nat.lt_or_eq_of_le weak with less | same
  · exact .inl less
  · have level : [a, b].Sublist (members.filter (rank · == rank b)) := by
      rw [← ties]
      simpa [same] using among.filter (rank · == rank b)
    exact .inr ⟨same, List.pairwise_iff_forall_sublist.1 ordered (level.trans List.filter_sublist)⟩

section Scan

variable (source : Text)

-- Every form takes at least one character, so that no two of its matches begin together.
theorem forms_take : ∀ r ∈ all, 0 < r.pattern.fewest := by decide

theorem matches_advance {r : CredentialReference} (listed : r ∈ all) :
    (r.pattern.allMatches source).Pairwise fun m n => m.start < n.start := by
  refine (Pattern.matches_ordered r.pattern source).imp_of_mem fun {m n} member _ apart => ?_
  obtain ⟨pre, taken, rest, k, found⟩ := Pattern.all_matches_found member
  have long := Pattern.fewest_le r.pattern found.way
  have some := forms_take r listed
  have first := found.start
  have last := found.stop
  omega

theorem sightings_ordered : (sightings source).Pairwise Sighting.Precedes := by
  refine List.pairwise_flatMap.2 ⟨fun entry member => ?_, ?_⟩
  · have listed : entry.1 ∈ all := List.fst_mem_of_mem_zipIdx member
    refine List.pairwise_map.2 ((matches_advance source listed).imp fun left => ?_)
    exact .inr ⟨rfl, left⟩
  · have numbered : all.zipIdx.Pairwise fun a b => a.2 < b.2 := by
      refine List.pairwise_map.1 ?_
      rw [List.zipIdx_map_snd]
      exact List.pairwise_lt_range'
    refine numbered.imp fun earlier s first t second => ?_
    obtain ⟨m, -, rfl⟩ := List.mem_map.1 first
    obtain ⟨n, -, rfl⟩ := List.mem_map.1 second
    exact .inl earlier

/-- The sightings that name a credential. -/
def named : List Sighting := (sightings source).filter fun s => !s.sourceId.isEmpty

theorem hit_of_sighting (r : CredentialReference) (i : Nat) (m : Match) : hitOf? source r m =
    if (Sighting.mk i r m).sourceId.isEmpty then none else some (Sighting.hit source ⟨i, r, m⟩) := by
  unfold hitOf? Sighting.hit Sighting.line Sighting.sourceId Match.captured Match.text?
  cases m.span? 1 with
  | none => rfl
  | some span => rfl

theorem hits_sighted : hitsIn source = (named source).map (Sighting.hit source) := by
  have each (r : CredentialReference) (i : Nat) (ms : List Match) : ms.filterMap (hitOf? source r) =
      ((ms.map fun m => Sighting.mk i r m).filter fun s => !s.sourceId.isEmpty).map (Sighting.hit source) := by
    induction ms with
    | nil => rfl
    | cons m rest ih =>
      rw [List.filterMap_cons, hit_of_sighting source r i, ih, List.map_cons, List.filter_cons]
      cases (Sighting.mk i r m).sourceId.isEmpty <;> rfl
  have forms : all = all.zipIdx.map (·.1) := (List.zipIdx_map_fst 0 all).symm
  rw [hitsIn, named, sightings, forms, List.flatMap_map, List.filter_flatMap, List.map_flatMap, ← forms]
  exact List.flatMap_congr fun entry _ => each entry.1 entry.2 _

/-- The sightings of credentials from the top of a source down. -/
def descending : List Sighting := (named source).mergeSort fun s t => s.line source ≤ t.line source

/-- The first sighting of each credential. -/
def firstSightings : List Sighting :=
  (Keyed.firstOfPairs ((descending source).map fun s => (s.sourceId, s))).map (·.2)

theorem descending_ordered : (descending source).Pairwise (Sighting.Before source) :=
  sorted_ties (Sighting.line source) ((sightings_ordered source).sublist List.filter_sublist)

theorem mem_descending {s : Sighting} : s ∈ descending source ↔ s ∈ sightings source ∧ s.sourceId ≠ [] := by
  rw [descending, List.mem_mergeSort, named, List.mem_filter]
  simp

theorem first_sightings_apart : ((firstSightings source).map Sighting.sourceId).Nodup := by
  rw [firstSightings, Keyed.firsts_keys]
  exact Keyed.nodup_distinct _

theorem first_sightings_ordered : (firstSightings source).Pairwise (Sighting.Before source) :=
  (descending_ordered source).sublist (Keyed.firsts_sublist Sighting.sourceId _)

-- No other sighting of a credential stands before the one that is kept.
theorem first_sighting_least {s other : Sighting} (kept : s ∈ firstSightings source) (seen : other ∈ sightings source)
    (same : other.sourceId = s.sourceId) : other = s ∨ s.Before source other := by
  have found : (descending source).find? (·.sourceId == s.sourceId) = some s := by
    rw [← Keyed.find_firsts Sighting.sourceId]
    exact (Keyed.find_keyed_iff (first_sightings_apart source)).2 ⟨kept, rfl⟩
  obtain ⟨-, front, back, whole, others⟩ := List.find?_eq_some_iff_append.1 found
  have listed := (mem_descending source).1 (List.mem_of_find?_eq_some found)
  have member : other ∈ descending source := (mem_descending source).2 ⟨seen, same ▸ listed.2⟩
  have ordered := descending_ordered source
  rw [whole] at member ordered
  rcases List.mem_append.1 member with early | late
  · exact absurd (others other early) (by simp [same])
  · rcases List.mem_cons.1 late with self | behind
    · exact .inl self
    · exact .inr ((List.pairwise_cons.1 (List.pairwise_append.1 ordered).2.1).1 other behind)

theorem scan_sighted (script : Text) : scan script =
    (firstSightings (Script.stripComments script)).map (Sighting.hit (Script.stripComments script)) := by
  have sorted (source : Text) : (hitsIn source).mergeSort (fun a b => a.line ≤ b.line) =
      (descending source).map (Sighting.hit source) := by
    rw [hits_sighted, descending]
    refine (List.map_mergeSort fun s _ t _ => ?_).symm
    exact decide_eq_decide.2 Int.ofNat_le.symm
  rw [scan, sorted, firstSightings]
  exact Keyed.firsts_map Sighting.sourceId _ fun _ => rfl

end Scan

/-- Of all that the forms match in a script without its comments, each credential that is named comes out once, by its
    first sighting, and in the order of sightings. -/
theorem scan_keeps_earliest (script : Text) : ∃ kept : List Sighting,
    scan script = kept.map (Sighting.hit (Script.stripComments script)) ∧
    ((scan script).map (·.sourceId)).Nodup ∧
    (∀ id, id ∈ (scan script).map (·.sourceId) ↔
      id ≠ [] ∧ ∃ s ∈ sightings (Script.stripComments script), s.sourceId = id) ∧
    kept.Pairwise (Sighting.Before (Script.stripComments script)) ∧
    ∀ s ∈ kept, s ∈ sightings (Script.stripComments script) ∧
      ∀ other ∈ sightings (Script.stripComments script), other.sourceId = s.sourceId →
        other = s ∨ s.Before (Script.stripComments script) other := by
  have ids : (scan script).map (·.sourceId) =
      (firstSightings (Script.stripComments script)).map Sighting.sourceId := by
    rw [scan_sighted, List.map_map]
    rfl
  refine ⟨_, scan_sighted script, ?_, fun id => ?_, first_sightings_ordered _, fun s member => ⟨?_, ?_⟩⟩
  · rw [ids]
    exact first_sightings_apart _
  · rw [ids, firstSightings, Keyed.firsts_keys, Keyed.mem_distinct, List.mem_map]
    constructor
    · rintro ⟨s, member, rfl⟩
      obtain ⟨seen, filled⟩ := (mem_descending _).1 member
      exact ⟨filled, s, seen, rfl⟩
    · rintro ⟨filled, s, seen, rfl⟩
      exact ⟨s, (mem_descending _).2 ⟨seen, filled⟩, rfl⟩
  · exact ((mem_descending _).1 ((Keyed.firsts_sublist Sighting.sourceId _).subset member)).1
  · exact fun other seen same => first_sighting_least _ member seen same

end PipelineMigration.CredentialReference
