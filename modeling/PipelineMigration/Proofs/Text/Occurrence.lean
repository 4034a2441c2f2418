import PipelineMigration.Proofs.Number.Numeral
set_option autoImplicit false

/- Where a text stands in another, and what two ways of cutting one text have in common. -/
namespace PipelineMigration.Text

section Cuts

variable {p : Char → Bool} {u v u' v' : Text} {c d : Char}

-- A text is cut in one way only at the first character of a class.
theorem cut_unique (same : u ++ c :: v = u' ++ d :: v') (front : ∀ x ∈ u, p x = false) (front' : ∀ x ∈ u', p x = false)
    (cut : p c = true) (cut' : p d = true) : u = u' ∧ c = d ∧ v = v' := by
  induction u generalizing u' with
  | nil => cases u' with
    | nil =>
      obtain ⟨rfl, rfl⟩ := List.cons.inj same
      exact ⟨rfl, rfl, rfl⟩
    | cons x u' =>
      obtain ⟨rfl, -⟩ := List.cons.inj same
      exact absurd (front' c List.mem_cons_self) (by rw [cut]; exact Bool.noConfusion)
  | cons x u ih => cases u' with
    | nil =>
      obtain ⟨rfl, -⟩ := List.cons.inj same
      exact absurd (front x List.mem_cons_self) (by rw [cut']; exact Bool.noConfusion)
    | cons y u' =>
      obtain ⟨rfl, behind⟩ := List.cons.inj same
      obtain ⟨rfl, held⟩ := ih behind (fun x member => front x (List.mem_cons_of_mem _ member))
        fun x member => front' x (List.mem_cons_of_mem _ member)
      exact ⟨rfl, held⟩

end Cuts

section Occurrences

variable {c : Char} {n u v x y k : Text}

-- A name whose first character does not come again in it does not overlap itself.
theorem shift_apart (single : c ∉ n) (same : (c :: n) ++ v = u ++ ((c :: n) ++ y)) :
    (u = [] ∧ v = y) ∨ ∃ x, u = (c :: n) ++ x ∧ v = x ++ ((c :: n) ++ y) := by
  cases u with
  | nil => exact .inl ⟨rfl, List.append_cancel_left same⟩
  | cons d u =>
    obtain ⟨rfl, behind⟩ := List.cons.inj same
    rcases List.append_eq_append_iff.1 behind with ⟨x, rfl, rest⟩ | ⟨x, rfl, rest⟩
    · exact .inr ⟨x, rfl, rest⟩
    · cases x with
      | nil => exact .inr ⟨[], by simp, rest.symm⟩
      | cons e x =>
        obtain ⟨rfl, -⟩ := List.cons.inj rest
        exact absurd (List.mem_append_right u List.mem_cons_self) single

-- Of two occurrences one comes first, or they are the same.
theorem occurrence_cases (single : c ∉ n) (same : u ++ ((c :: n) ++ v) = x ++ ((c :: n) ++ y)) :
    (∃ z, u = x ++ ((c :: n) ++ z)) ∨ (x = u ∧ v = y) ∨ ∃ z, x = u ++ ((c :: n) ++ z) ∧ v = z ++ ((c :: n) ++ y) := by
  rcases List.append_eq_append_iff.1 same with ⟨z, rfl, rest⟩ | ⟨z, rfl, rest⟩
  · rcases shift_apart single rest with ⟨rfl, rfl⟩ | ⟨z, rfl, rfl⟩
    · exact .inr (.inl ⟨List.append_nil u, rfl⟩)
    · exact .inr (.inr ⟨z, rfl, rfl⟩)
  · rcases shift_apart single rest with ⟨rfl, rfl⟩ | ⟨z, rfl, -⟩
    · exact .inr (.inl ⟨(List.append_nil x).symm, rfl⟩)
    · exact .inl ⟨z, rfl⟩

-- What holds no mark stands on one side of it.
theorem infix_beside (apart : c ∉ k) (inside : k <:+: u ++ c :: v) : k <:+: u ∨ k <:+: v := by
  obtain ⟨x, y, same⟩ := inside
  rw [List.append_assoc] at same
  rcases List.append_eq_append_iff.1 same with ⟨z, rfl, rest⟩ | ⟨z, rfl, rest⟩
  · rcases List.append_eq_append_iff.1 rest with ⟨w, rfl, -⟩ | ⟨w, rfl, more⟩
    · exact .inl ⟨x, w, (List.append_assoc _ _ _)⟩
    · have begins : c :: v = w ++ y := more
      cases w with
      | nil => exact .inl ⟨x, [], by simp⟩
      | cons d w =>
        obtain ⟨rfl, -⟩ := List.cons.inj begins
        exact absurd (List.mem_append_right z List.mem_cons_self) apart
  · cases z with
    | nil =>
      cases k with
      | nil => exact .inr (List.nil_infix)
      | cons d k =>
        obtain ⟨rfl, -⟩ := List.cons.inj rest
        exact absurd List.mem_cons_self apart
    | cons d z =>
      obtain ⟨-, rfl⟩ := List.cons.inj rest
      exact .inr ⟨z, y, List.append_assoc _ _ _⟩

-- What begins a text and holds no mark begins it before the mark.
theorem prefix_before (apart : c ∉ k) (begins : k <+: u ++ c :: v) : k <+: u := by
  obtain ⟨y, same⟩ := begins
  rcases List.append_eq_append_iff.1 same with ⟨z, rfl, -⟩ | ⟨z, rfl, rest⟩
  · exact List.prefix_append k z
  · cases z with
    | nil => simp
    | cons d z =>
      obtain ⟨rfl, -⟩ := List.cons.inj rest
      exact absurd (List.mem_append_right u List.mem_cons_self) apart

-- What begins inside a text with a mark, by a character that stands nowhere from the mark on, stands before
-- the mark when it does not hold the mark itself.
theorem infix_ahead {b f rest : Text} {mark : Char} (same : x ++ ((c :: n) ++ f) = u ++ (mark :: b ++ rest))
    (inside : x.length < (u ++ mark :: b).length) (back : c ∉ mark :: b) (apart : mark ∉ c :: n) : (c :: n) <:+: u := by
  rcases List.append_eq_append_iff.1 same with ⟨z, rfl, more⟩ | ⟨z, rfl, more⟩
  · exact (prefix_before apart ⟨f, more⟩).isInfix.trans (List.suffix_append x z).isInfix
  · rw [List.length_append, List.length_append, Nat.add_lt_add_iff_left] at inside
    rcases List.append_eq_append_iff.1 more with ⟨w, rfl, -⟩ | ⟨w, whole, next⟩
    · rw [List.length_append] at inside
      omega
    · cases w with
      | nil =>
        rw [whole, List.append_nil] at inside
        exact absurd inside (Nat.lt_irrefl _)
      | cons d w =>
        obtain ⟨rfl, -⟩ := List.cons.inj next
        exact absurd (whole ▸ List.mem_append_right z List.mem_cons_self) back

-- The same behind a front where the character does not stand.
theorem infix_between {a b f rest : Text} {mark : Char} (same : x ++ ((c :: n) ++ f) = a ++ (u ++ (mark :: b ++ rest)))
    (inside : x.length < (a ++ (u ++ mark :: b)).length) (front : c ∉ a) (back : c ∉ mark :: b) (apart : mark ∉ c :: n) :
    (c :: n) <:+: u := by
  rcases List.append_eq_append_iff.1 same with ⟨z, rfl, more⟩ | ⟨z, rfl, more⟩
  · cases z with
    | nil =>
      refine infix_ahead (x := []) more ?_ back apart
      rw [List.append_nil] at inside
      rw [List.length_append] at inside
      rw [List.length_nil]
      omega
    | cons d z =>
      obtain ⟨rfl, -⟩ := List.cons.inj more
      exact absurd (List.mem_append_right x List.mem_cons_self) front
  · refine infix_ahead more.symm ?_ back apart
    rwa [List.length_append, List.length_append, Nat.add_lt_add_iff_left] at inside

theorem infix_drop_while {p : Char → Bool} (filled : k ≠ []) (kept : ∀ d ∈ k, p d = false) (inside : k <:+: u) :
    k <:+: u.dropWhile p := by
  induction u with
  | nil => exact inside
  | cons d u ih =>
    by_cases dropped : p d = true
    · rw [List.dropWhile_cons_of_pos dropped]
      rcases List.infix_cons_iff.1 inside with begins | later
      · cases k with
        | nil => exact absurd rfl filled
        | cons e k =>
          obtain ⟨rfl, -⟩ := List.cons_prefix_cons.1 begins
          exact absurd (kept e List.mem_cons_self) (by rw [dropped]; exact Bool.noConfusion)
      · exact ih later
    · rw [List.dropWhile_cons_of_neg dropped]
      exact inside

-- What holds no blank is not trimmed away.
theorem infix_trim (filled : k ≠ []) (kept : ∀ d ∈ k, isBlank d = false) (inside : k <:+: u) : k <:+: trim u := by
  unfold trim trimBy trimRightBy trimLeftBy
  refine List.reverse_infix.1 ?_
  rw [List.reverse_reverse]
  refine infix_drop_while (by simpa using filled) (fun d member => kept d (List.mem_reverse.1 member)) ?_
  exact List.reverse_infix.2 (infix_drop_while filled kept inside)

end Occurrences

section Characters

variable {c : Char}

theorem blank_no_word (blank : isBlank c = true) : isWord c = false := by
  have wordless : ∀ n ∈ Number.blankCodes, isWord (Char.ofNat n) = false := by decide +kernel
  have held := wordless c.toNat (Number.blank_code blank)
  rwa [Char.ofNat_toNat] at held

theorem blank_no_quote (blank : isBlank c = true) : isQuote c = false := by
  have unquoted : ∀ n ∈ Number.blankCodes, isQuote (Char.ofNat n) = false := by decide
  have held := unquoted c.toNat (Number.blank_code blank)
  rwa [Char.ofNat_toNat] at held

theorem quote_no_word (quote : isQuote c = true) : isWord c = false := by
  unfold isQuote at quote
  rcases Bool.or_eq_true_iff.1 quote with same | same <;> obtain rfl := beq_iff_eq.1 same <;> decide

end Characters

end PipelineMigration.Text
