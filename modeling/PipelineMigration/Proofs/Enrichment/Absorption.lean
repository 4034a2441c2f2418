import PipelineMigration.Enrichment.Traffic
import PipelineMigration.Proofs.Enrichment.Admission
import PipelineMigration.Proofs.Number.Overflow
set_option autoImplicit false

/- Which failures a consultation absorbs. Whatever the network answers, the fallback stands in for an answer that
   does not count; only a confidence that no double can hold, in an answer that counts otherwise, breaks it off. -/
namespace PipelineMigration.Enrichment

/-- The members of an answer that counts but for its confidence, a whole number beyond all doubles. -/
structure Overflows (members : List (Text × Json)) : Prop where
  status : (AnalysisStatus.ofName? (((Keyed.get? "status".toList members).map Json.plain).getD []).lower).isSome = true
  note : Text.trim ((textOf? (Keyed.get? "note".toList members)).getD []) ≠ []
  confidence : ∃ n, Keyed.get? "confidence".toList members = some (.int n) ∧ Number.overflow ≤ n.natAbs

theorem confidence_overflow_iff (v : Json) :
    confidenceOf v = .error .overflow ↔ ∃ n, v = .int n ∧ Number.overflow ≤ n.natAbs := by
  cases v with
  | int n =>
    have absent := Number.of_int_none_iff n
    have same : (∃ m, Json.int n = .int m ∧ Number.overflow ≤ m.natAbs) ↔ Number.overflow ≤ n.natAbs := by simp
    rw [same, ← absent]
    unfold confidenceOf
    dsimp only
    cases Number.ofInt? n <;> simp
  | string s =>
    unfold confidenceOf
    dsimp only
    cases Number.readFloat? s <;> simp
  | null => simp [confidenceOf]
  | bool b => simp [confidenceOf]
  | float x => simp [confidenceOf]
  | array items => simp [confidenceOf]
  | object members => simp [confidenceOf]

theorem of_members_overflow_iff (capability : Text) (members : List (Text × Json)) :
    Analysis.ofMembers capability members = .error .overflow ↔ Overflows members := by
  unfold Analysis.ofMembers
  dsimp only
  cases known : AnalysisStatus.ofName? (((Keyed.get? "status".toList members).map Json.plain).getD []).lower with
  | none =>
    refine iff_of_false nofun fun overflows => ?_
    have said := overflows.status
    rw [known] at said
    cases said
  | some status =>
    dsimp only
    by_cases silent : (Text.trim ((textOf? (Keyed.get? "note".toList members)).getD [])).isEmpty = true
    · rw [if_pos silent]
      exact iff_of_false nofun fun overflows => overflows.note (List.isEmpty_iff.1 silent)
    · rw [if_neg silent]
      have status : (AnalysisStatus.ofName?
          (((Keyed.get? "status".toList members).map Json.plain).getD []).lower).isSome = true := by rw [known]; rfl
      have note : Text.trim ((textOf? (Keyed.get? "note".toList members)).getD []) ≠ [] :=
        fun none => silent (List.isEmpty_iff.2 none)
      cases given : Keyed.get? "confidence".toList members with
      | none =>
        refine iff_of_false nofun fun overflows => ?_
        obtain ⟨n, held, -⟩ := overflows.confidence
        rw [given] at held
        cases held
      | some v =>
        have same : Overflows members ↔ confidenceOf v = .error .overflow := by
          rw [confidence_overflow_iff]
          constructor
          · intro overflows
            obtain ⟨n, held, large⟩ := overflows.confidence
            exact ⟨n, Option.some.inj (given.symm.trans held), large⟩
          · rintro ⟨n, rfl, large⟩
            exact ⟨status, note, n, given, large⟩
        rw [same]
        dsimp only
        cases confidenceOf v with
        | ok x => exact iff_of_false nofun nofun
        | error fault => exact ⟨fun broken => by cases broken; rfl, fun broken => by cases broken; rfl⟩

/-- A reply whose answer counts but for such a confidence. -/
def Oversized (reply : NetworkReply) : Prop := ∃ members, replyObject reply = .ok members ∧ Overflows members

namespace Consultation

variable {τ : Type} {c : Consultation τ} {q : Question}

theorem hear_overflow_iff (reply : NetworkReply) :
    c.hear q reply = .error .overflow ↔ c.apiKey ≠ [] ∧ Oversized reply := by
  unfold hear Oversized
  by_cases keyless : c.apiKey.isEmpty = true
  · rw [if_pos keyless]
    exact iff_of_false nofun fun both => both.1 (List.isEmpty_iff.1 keyless)
  · rw [if_neg keyless]
    have keyed : c.apiKey ≠ [] := fun none => keyless (List.isEmpty_iff.2 none)
    cases read : replyObject reply with
    | error e => exact iff_of_false nofun fun both => nomatch both.2.choose_spec.1
    | ok members =>
      dsimp only
      rw [of_members_overflow_iff]
      constructor
      · exact fun overflows => ⟨keyed, members, rfl, overflows⟩
      · rintro ⟨-, _, ⟨⟩, overflows⟩
        exact overflows

variable [Clock τ] {e : Call τ} {m : Memory τ} {a : Analysis}

/-- Whether one more question may be sent at a reading of the clock. -/
def HasRoom (c : Consultation τ) (later : τ) (m : Memory τ) : Prop := (recent later m.calls).length < c.limit

instance {later : τ} : Decidable (c.HasRoom later m) := inferInstanceAs (Decidable (_ < _))

theorem consult_known (known : m.known? e.now e.question = some a) : c.consult e m = (⟨[], .ok a⟩, m) := by
  unfold consult opening
  rw [known]

theorem consult_full (unknown : m.known? e.now e.question = none) (full : ¬ c.HasRoom e.later m) :
    c.consult e m =
      (⟨[], .ok (fallbackAnalysis e.question.capability)⟩, { m with calls := recent e.later m.calls }) := by
  have stops : c.limit ≤ (m.calls.dropWhile fun t => Clock.minute ≤ e.later - t).length := Int.not_lt.1 full
  unfold consult opening Memory.admit?
  rw [unknown]
  dsimp only
  rw [if_pos stops]
  rfl

theorem consult_admitted (unknown : m.known? e.now e.question = none) (room : c.HasRoom e.later m) :
    c.consult e m =
      (⟨c.requests e.question,
        (c.closing e.now e.question e.reply { m with calls := recent e.later m.calls ++ [e.later] }).1⟩,
        (c.closing e.now e.question e.reply { m with calls := recent e.later m.calls ++ [e.later] }).2) := by
  have goes : ¬ c.limit ≤ (m.calls.dropWhile fun t => Clock.minute ≤ e.later - t).length := Int.not_le.2 room
  unfold consult opening Memory.admit?
  rw [unknown]
  dsimp only
  rw [if_neg goes]
  rfl

/-- Nothing is remembered, the question is admitted and sent, and the reply is oversized. -/
def Breaks (c : Consultation τ) (e : Call τ) (m : Memory τ) : Prop :=
  m.known? e.now e.question = none ∧ c.HasRoom e.later m ∧ c.apiKey ≠ [] ∧ Oversized e.reply

/-- The analysis that is remembered, or else the one that the reply to an admitted question spells. -/
def analysis? (c : Consultation τ) (e : Call τ) (m : Memory τ) : Option Analysis :=
  (m.known? e.now e.question).or (if c.HasRoom e.later m then (c.hear e.question e.reply).toOption else none)

/-- A consultation comes to its analysis, the fallback where it has none, unless it breaks off. -/
theorem consult_absorbs (c : Consultation τ) (e : Call τ) (m : Memory τ) :
    c.Breaks e m ∧ (c.consult e m).1.result = .error .overflow ∨
    ¬ c.Breaks e m ∧
      (c.consult e m).1.result = .ok ((c.analysis? e m).getD (fallbackAnalysis e.question.capability)) := by
  unfold analysis? Breaks
  cases known : m.known? e.now e.question with
  | some a =>
    rw [consult_known known]
    exact .inr ⟨nofun, rfl⟩
  | none =>
    rw [Option.none_or]
    by_cases room : c.HasRoom e.later m
    · rw [consult_admitted known room, if_pos room]
      unfold closing
      have broken := hear_overflow_iff (c := c) (q := e.question) e.reply
      cases heard : c.hear e.question e.reply with
      | ok a =>
        rw [heard] at broken
        exact .inr ⟨(nomatch broken.2 ·.2.2), rfl⟩
      | error fault =>
        rw [heard] at broken
        cases fault with
        | rejected => exact .inr ⟨(nomatch broken.2 ·.2.2), rfl⟩
        | overflow => exact .inl ⟨⟨rfl, room, broken.1 rfl⟩, rfl⟩
    · rw [consult_full known room, if_neg room]
      exact .inr ⟨fun breaks => room breaks.2.1, rfl⟩

end Consultation

theorem consult_all_cons {τ : Type} [Clock τ] (c : Consultation τ) (now : τ) (reply : Text → NetworkReply) (m : Memory τ)
    (q : Question) (rest : List Question) : consultAll c now reply m (q :: rest) =
      ((q, (c.consult ⟨now, now, q, reply q.capability⟩ m).1) ::
        (consultAll c now reply (c.consult ⟨now, now, q, reply q.capability⟩ m).2 rest).1,
      (consultAll c now reply (c.consult ⟨now, now, q, reply q.capability⟩ m).2 rest).2) := rfl

-- An answer that counts but for its confidence, 10^309.
def boastfulReply : NetworkReply :=
  let answer : Text := "\x7b\\\"status\\\": \\\"native\\\", \\\"note\\\": \\\"Use a webhook.\\\", \\\"confidence\\\": 1" ++
    List.replicate 309 '0' ++ "\x7d"
  .answered 200 ("\x7b\"choices\": [\x7b\"message\": \x7b\"content\": \"" ++ answer ++ "\"\x7d\x7d]\x7d") []

theorem boastful_reply_breaks : ¬ ∃ a, (onceAMinute.consult ⟨0, 0, anyQuestion, boastfulReply⟩ {}).1.result = .ok a := by
  have broken : ((onceAMinute.consult ⟨0, 0, anyQuestion, boastfulReply⟩ {}).1.result matches .error .overflow) = true := by
    decide +kernel
  rintro ⟨a, answered⟩
  rw [answered] at broken
  cases broken

end PipelineMigration.Enrichment
