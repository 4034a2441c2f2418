import Mathlib.Tactic.IntervalCases
import PipelineMigration.Proofs.Capability.Said
import PipelineMigration.Proofs.Outcome
import PipelineMigration.Proofs.Text.Trim
import PipelineMigration.Proofs.Yaml.Draw
import PipelineMigration.Service.Endpoint
set_option autoImplicit false

/- Addresses of records and of pages of the log. A number that is written into an address is read back as it is. -/
namespace PipelineMigration.Service

open Text (number_leads number_digit)

section Number

variable (n : Nat)

theorem digits_value : Take.digitsValue? (Text.ofNat n) = some n := by
  have filled : (Text.ofNat n).isEmpty = false := List.isEmpty_eq_false_iff.2 Nat.toDigits_ne_nil
  have digits : (Text.ofNat n).all Text.isAsciiDigit = true := List.all_eq_true.2 (number_digit n)
  have lone : (decide (1 < (Text.ofNat n).length) && (Text.ofNat n).head? == some '0') = false := by
    rcases Nat.eq_zero_or_pos n with rfl | positive
    · decide
    · rw [beq_eq_false_iff_ne.2 (number_leads n positive), Bool.and_false]
  have value : (Text.ofNat n).foldl (fun n c => 10 * n + (c.toNat - 48)) 0 = n :=
    Nat.ofDigitChars_toDigits (by decide) (by decide)
  unfold Take.digitsValue?
  rw [filled, digits, lone, value]
  rfl

theorem digit_plain {c : Char} (digit : Text.isAsciiDigit c = true) :
    Number.isPadding c = false ∧ c ≠ '-' ∧ c ≠ '+' ∧ c ≠ '.' ∧ c ≠ '_' ∧ c ≠ '/' := by
  have all : ∀ n : Fin 128, (!Text.isAsciiDigit (Char.ofNat n) || (!Number.isPadding (Char.ofNat n) &&
      !(['-', '+', '.', '_', '/'].contains (Char.ofNat n)))) = true := by decide
  have ascii : c.toNat < 128 := by
    have bound : c ≤ '9' := of_decide_eq_true (Bool.and_eq_true_iff.1 digit).2
    exact Nat.lt_of_le_of_lt bound (by decide)
  have held := Capability.ascii_each (p := fun c => !Text.isAsciiDigit c || (!Number.isPadding c &&
      !(['-', '+', '.', '_', '/'].contains c))) all ascii
  simpa [digit] using held

theorem without_zeros : Take.withoutZeros (Text.ofNat n) = some (Text.ofNat n) := by
  rcases Nat.eq_zero_or_pos n with rfl | positive
  · change Take.withoutZeros ['0'] = some ['0']
    unfold Take.withoutZeros
    rfl
  · have leads := number_leads n positive
    have digits := number_digit n
    have filled : Text.ofNat n ≠ [] := Nat.toDigits_ne_nil
    generalize Text.ofNat n = s at leads digits filled
    obtain ⟨d, r, rfl⟩ := List.exists_cons_of_ne_nil filled
    have other : d ≠ '0' := fun same => leads (congrArg some same)
    have digit := digits d List.mem_cons_self
    unfold Take.withoutZeros
    split <;> simp_all

theorem without_fraction : Take.withoutFraction (Text.ofNat n) = Text.ofNat n := by
  have none : Text.splitOnce ['.'] (Text.ofNat n) = none := Text.splitOnce_eq_none_iff.2 fun inside =>
    (digit_plain (number_digit n '.' (inside.subset List.mem_cons_self))).2.2.2.1 rfl
  unfold Take.withoutFraction
  erw [none]

theorem without_underscores : Take.withoutUnderscores (Text.ofNat n) = Text.ofNat n := by
  unfold Take.withoutUnderscores
  split
  · rfl
  · refine List.filter_eq_self.2 fun c member => ?_
    simpa using (digit_plain (number_digit n c member)).2.2.2.2.1

theorem whole_number : Take.wholeOfText? (Text.ofNat n) = some (n : Int) := by
  have unpadded : Text.trimBy Number.isPadding (Text.ofNat n) = Text.ofNat n :=
    Text.trim_by_none fun c member => (digit_plain (number_digit n c member)).1
  have unsigned : Take.wholeOfText?.unsigned (Text.ofNat n) = some (n : Int) := by
    unfold Take.wholeOfText?.unsigned
    rw [without_zeros, Option.bind_some, without_fraction, without_underscores, digits_value]
    rfl
  have digits := number_digit n
  unfold Take.wholeOfText?
  dsimp only
  rw [unpadded]
  split
  · rename_i same
    exact absurd rfl (digit_plain (digits '-' (same ▸ List.mem_cons_self))).2.1
  · rename_i same
    exact absurd rfl (digit_plain (digits '+' (same ▸ List.mem_cons_self))).2.2.1
  · exact unsigned

theorem take_number (small : n < 10 ^ 19) (place : Place) : Take.whole place (.string (Text.ofNat n)) = .ok (n : Int) := by
  have short : ¬ Number.digitLimit < (Text.ofNat n).length := by
    have few := (Nat.length_toDigits_le_iff (by decide) (by decide)).2 small
    unfold Number.digitLimit Text.ofNat
    omega
  unfold Take.whole
  dsimp only
  rw [if_neg short, whole_number]

end Number

section Path

variable {id : Int}

-- An id that can be held is read back from the path as it was written.
theorem take_record_id (positive : 0 ≤ id) (storable : History.isStorable id = true) :
    takeRecordId (Text.ofInt id) = .ok id := by
  obtain ⟨n, rfl⟩ := Int.eq_ofNat_of_zero_le positive
  have below : (n : Int) < 9223372036854775808 := of_decide_eq_true (Bool.and_eq_true_iff.1 storable).2
  exact take_number n (by omega) _

theorem of_path_record (positive : 0 ≤ id) :
    Endpoint.ofPath? (Endpoint.record (Text.ofInt id)).path = some (.record (Text.ofInt id)) := by
  obtain ⟨n, rfl⟩ := Int.eq_ofNat_of_zero_le positive
  change Endpoint.ofPath? ("/api/translate/log/".toList ++ Text.ofNat n) = some (.record (Text.ofNat n))
  have whole : '/' ∉ Text.ofNat n := fun inside => absurd rfl (digit_plain (number_digit n _ inside)).2.2.2.2.2
  have filled : Text.ofNat n ≠ [] := Nat.toDigits_ne_nil
  generalize Text.ofNat n = s at whole filled
  obtain ⟨d, r, rfl⟩ := List.exists_cons_of_ne_nil filled
  have others : Endpoint.fixed.find? (·.path == "/api/translate/log/".toList ++ d :: r) = none := rfl
  have own : Endpoint.recordId? ("/api/translate/log/".toList ++ d :: r) = some (d :: r) := by
    have start : Endpoint.log.path ++ ['/'] = "/api/translate/log/".toList := rfl
    have begins : "/api/translate/log/".toList.isPrefixOf ("/api/translate/log/".toList ++ d :: r) = true :=
      List.isPrefixOf_iff_prefix.2 (List.prefix_append _ _)
    have slashless : (d :: r).contains '/' = false := by simpa using whole
    unfold Endpoint.recordId?
    dsimp only
    rw [start, List.drop_left, begins, slashless]
    rfl
  unfold Endpoint.ofPath?
  rw [others, own]
  rfl

end Path

section Page

theorem whole_within_ok {least n : Int} {greatest : Option Int} {place : Place} {v : Json}
    (taken : Take.wholeWithin least greatest place v = .ok n) : least ≤ n ∧ ∀ g ∈ greatest, n ≤ g := by
  obtain ⟨k, -, rest⟩ := Outcome.bind_ok taken
  split at rest
  · cases rest
  · rename_i low
    split at rest
    · cases rest
    · rename_i high
      cases rest
      refine ⟨Int.not_lt.1 low, fun g given => ?_⟩
      rw [given] at high
      simpa using high

theorem usual_within_ok {ms : List (Text × Json)} {name : String} {least default n : Int} {greatest : Option Int}
    {place : Place} (usual : least ≤ default ∧ ∀ g ∈ greatest, default ≤ g)
    (taken : Take.usual ms name default (.wholeWithin least greatest) place = .ok n) :
    least ≤ n ∧ ∀ g ∈ greatest, n ≤ g := by
  unfold Take.usual at taken
  split at taken
  · exact whole_within_ok taken
  · cases taken
    exact usual

theorem on_ok {α β : Type} {f : Checked (α → β)} {a : Checked α} {b : β} (done : Checked.on f a = .ok b) :
    ∃ g x, f = .ok g ∧ a = .ok x ∧ g x = b := by
  unfold Checked.on at done
  split at done
  · cases done
    exact ⟨_, _, rfl, rfl, rfl⟩
  all_goals cases done

theorem log_page_bounds {query : List (Text × Text)} {page : LogPage} (taken : takeLogPage query = .ok page) :
    1 ≤ page.limit ∧ page.limit ≤ 200 ∧ 0 ≤ page.offset := by
  obtain ⟨g, offset, front, last, same⟩ := on_ok taken
  obtain ⟨limit, first, own⟩ := Outcome.map_ok front
  obtain ⟨least, greatest⟩ := usual_within_ok ⟨by decide, by simp⟩ first
  obtain ⟨positive, -⟩ := usual_within_ok ⟨by decide, by simp⟩ last
  subst own same
  exact ⟨least, greatest 200 rfl, positive⟩

theorem take_within {n : Nat} (small : n < 10 ^ 19) {least : Int} {greatest : Option Int}
    (low : least ≤ n) (high : ∀ g ∈ greatest, (n : Int) ≤ g) (place : Place) :
    Take.wholeWithin least greatest place (.string (Text.ofNat n)) = .ok (n : Int) := by
  have within : greatest.any (· < (n : Int)) = false := by
    cases greatest with
    | none => rfl
    | some g => simpa using high g rfl
  unfold Take.wholeWithin
  rw [take_number n small]
  change (if (n : Int) < least then _ else _) = _
  rw [if_neg (by omega), within]
  rfl

theorem take_log_page {l o : Nat} (limit : 1 ≤ l ∧ l ≤ 200) (offset : o < 10 ^ 19) :
    takeLogPage [("limit", Text.ofNat l), ("offset", Text.ofNat o)] = .ok ⟨l, o⟩ := by
  have first : Take.wholeWithin 1 (some 200) [.name "query", .name "limit"] (.string (Text.ofNat l)) = .ok (l : Int) :=
    take_within (by omega) (by omega) (by simpa using limit.2) _
  have last : Take.wholeWithin 0 none [.name "query", .name "offset"] (.string (Text.ofNat o)) = .ok (o : Int) :=
    take_within offset (by omega) (by simp) _
  change Checked.on ((Take.wholeWithin 1 (some 200) [.name "query", .name "limit"] (.string (Text.ofNat l))).map LogPage.mk)
    (Take.wholeWithin 0 none [.name "query", .name "offset"] (.string (Text.ofNat o))) = _
  rw [first, last]
  rfl

end Page
end PipelineMigration.Service
