set_option autoImplicit false

/- Computations that may fail: what a result says of the steps before it. -/
namespace PipelineMigration.Outcome

variable {ε δ α β : Type}

theorem bind_ok {x : Except ε α} {f : α → Except ε β} {b : β} (done : (x >>= f) = .ok b) :
    ∃ a, x = .ok a ∧ f a = .ok b := by
  cases x with
  | error e => cases done
  | ok a => exact ⟨a, rfl, done⟩

theorem bind_ok_iff {x : Except ε α} {f : α → Except ε β} {b : β} :
    (x >>= f) = .ok b ↔ ∃ a, x = .ok a ∧ f a = .ok b := by
  constructor
  · exact bind_ok
  · rintro ⟨a, rfl, done⟩
    exact done

theorem done_of_isSome {x : Except ε α} (there : x.toOption.isSome = true) : ∃ a, x = .ok a := by
  cases x with
  | error e => cases there
  | ok a => exact ⟨a, rfl⟩

theorem if_ok {c : Prop} [Decidable c] {a b : α} {e : ε} (done : (if c then .ok a else .error e) = Except.ok b) :
    c ∧ a = b := by
  by_cases held : c
  · rw [if_pos held] at done
    exact ⟨held, Except.ok.inj done⟩
  · rw [if_neg held] at done
    cases done

theorem unless_ok {c : Prop} [Decidable c] {a b : α} {e : ε} (done : (if c then .error e else .ok a) = Except.ok b) :
    ¬ c ∧ a = b := by
  by_cases held : c
  · rw [if_pos held] at done
    cases done
  · rw [if_neg held] at done
    exact ⟨held, Except.ok.inj done⟩

theorem map_ok {x : Except ε α} {f : α → β} {b : β} (done : x.map f = .ok b) : ∃ a, x = .ok a ∧ f a = b := by
  cases x with
  | error e => cases done
  | ok a => exact ⟨a, rfl, Except.ok.inj done⟩

theorem map_failed {x : Except ε α} {f : α → β} {e : ε} (failed : x.map f = .error e) : x = .error e := by
  cases x with
  | error d => exact congrArg Except.error (Except.error.inj failed)
  | ok a => cases failed

theorem map_error_ok {x : Except ε α} {f : ε → δ} {a : α} (done : x.mapError f = .ok a) : x = .ok a := by
  cases x with
  | error e => cases done
  | ok b => exact congrArg Except.ok (Except.ok.inj done)

theorem bind_done_iff {x : Except ε α} {f : α → Except ε β} :
    (∃ b, (x >>= f) = .ok b) ↔ ∃ a, x = .ok a ∧ ∃ b, f a = .ok b := by
  constructor
  · rintro ⟨b, done⟩
    obtain ⟨a, first, second⟩ := bind_ok done
    exact ⟨a, first, b, second⟩
  · rintro ⟨a, rfl, done⟩
    exact done

-- A step that cannot fail changes nothing about whether there is a result.
theorem bind_pure_done_iff {x : Except ε α} {f : α → β} :
    (∃ b, (x >>= fun a => pure (f a)) = .ok b) ↔ ∃ a, x = .ok a :=
  bind_done_iff.trans (exists_congr fun a => and_iff_left ⟨f a, rfl⟩)

-- All steps give a result just when each one does.
theorem each_done_iff {f : α → Except ε β} (as : List α) :
    (∃ bs, as.mapM f = .ok bs) ↔ ∀ a ∈ as, ∃ b, f a = .ok b := by
  induction as with
  | nil => exact iff_of_true ⟨[], rfl⟩ fun _ none => nomatch none
  | cons a rest ih =>
    rw [List.mapM_cons, List.forall_mem_cons, ← ih, bind_done_iff]
    constructor
    · rintro ⟨b, first, done⟩
      obtain ⟨bs, others, -⟩ := bind_done_iff.1 done
      exact ⟨⟨b, first⟩, bs, others⟩
    · rintro ⟨⟨b, first⟩, bs, others⟩
      exact ⟨b, first, bind_done_iff.2 ⟨bs, others, _, rfl⟩⟩

-- What holds of the result of every single step holds of all results.
theorem each_ok {f : α → Except ε β} {P : β → Prop} (each : ∀ a b, f a = .ok b → P b) (as : List α) (bs : List β)
    (done : as.mapM f = .ok bs) : ∀ b ∈ bs, P b := by
  induction as generalizing bs with
  | nil =>
    rw [List.mapM_nil] at done
    rw [← Except.ok.inj done]
    exact fun _ none => nomatch none
  | cons a rest ih =>
    rw [List.mapM_cons] at done
    obtain ⟨b, first, done⟩ := bind_ok done
    obtain ⟨more, later, done⟩ := bind_ok done
    rw [← Except.ok.inj done]
    exact List.forall_mem_cons.2 ⟨each a b first, ih more later⟩

end PipelineMigration.Outcome
