import PipelineMigration.Proofs.Credential.Recognition
import PipelineMigration.Proofs.Feature.Source
import PipelineMigration.Proofs.Script.Block
set_option autoImplicit false

/- Two readers look for credentials: one follows the arguments of a call to its closing parenthesis, the other
   knows the references by their shape. On calls that are written plainly the second finds what the first binds. -/
namespace PipelineMigration

namespace Script

open Pattern CredentialReference

/-- A literal as it is written, with what it says. -/
def IsLiteral (written value : Text) : Prop := ∃ mark, Text.isQuote mark = true ∧
  (written = [mark, mark, mark] ++ value ++ [mark, mark, mark] ∨ written = mark :: (value ++ [mark]) ∧ mark ∉ value)

theorem argument_name_taken {before : Option Char} {taken rest : Text} {k : Texts}
    (way : Script.argumentName.Takes before taken rest k) : ∃ name gap gap', (∀ c ∈ gap, Text.isBlank c = true) ∧
      (∀ c ∈ gap', Text.isBlank c = true) ∧ k = [(1, name)] ∧ taken = name ++ gap ++ [':'] ++ gap' := by
  have shape : Script.argumentName = capture 1 (longest 1 Text.isWord) ++ blanks ++ exactly [':'] ++ blanks := rfl
  rw [shape] at way
  obtain ⟨_, gap', toColon, blank', rfl⟩ := then_blanks.1 way
  obtain ⟨_, toGap, rfl⟩ := then_exactly.1 toColon
  obtain ⟨name, gap, ⟨_, ⟨-, rfl⟩, rfl⟩, blank, rfl⟩ := then_blanks.1 toGap
  exact ⟨name, gap, gap', blank, blank', rfl, rfl⟩

theorem marked_taken {marks : Text} {inner : Pattern} {before : Option Char} {taken rest : Text} {k : Texts}
    (way : (exactly marks ++ capture 2 inner ++ exactly marks).Takes before taken rest k) :
    ∃ value b r l, inner.Takes b value r l ∧ k = (2, value) :: l ∧ taken = marks ++ value ++ marks := by
  obtain ⟨_, toValue, rfl⟩ := then_exactly.1 way
  obtain ⟨_, value, _, _, ⟨rfl, rfl⟩, ⟨l, inside, rfl⟩, rfl, rfl⟩ := then_takes.1 toValue
  exact ⟨value, _, _, l, inside, by rw [List.append_nil], rfl⟩

theorem literal_argument_taken {before : Option Char} {taken rest : Text} {k : Texts}
    (way : literalArgument.Takes before taken rest k) : ∃ name gap gap' written value,
      (∀ c ∈ gap, Text.isBlank c = true) ∧ (∀ c ∈ gap', Text.isBlank c = true) ∧ IsLiteral written value ∧
      k = [(2, value), (1, name)] ∧ taken = name ++ gap ++ [':'] ++ gap' ++ written := by
  have shape : literalArgument = Script.argumentName ++
      orElse (exactly ['\'', '\'', '\''] ++ capture 2 (shortest 0 fun _ => true) ++ exactly ['\'', '\'', '\''])
        (orElse (exactly ['"', '"', '"'] ++ capture 2 (shortest 0 fun _ => true) ++ exactly ['"', '"', '"'])
          (orElse (exactly ['\''] ++ capture 2 (longest 0 (· != '\'')) ++ exactly ['\''])
            (exactly ['"'] ++ capture 2 (longest 0 (· != '"')) ++ exactly ['"']))) := rfl
  rw [shape] at way
  obtain ⟨_, written, _, k, named, literal, rfl, rfl⟩ := then_takes.1 way
  obtain ⟨name, gap, gap', blank, blank', rfl, rfl⟩ := argument_name_taken named
  have single (mark : Char) (quote : Text.isQuote mark = true) (way : (exactly [mark] ++ capture 2 (longest 0 (· != mark)) ++
      exactly [mark]).Takes (lastOf before (name ++ gap ++ [':'] ++ gap')) written rest k) :
      ∃ value, IsLiteral written value ∧ k = [(2, value)] := by
    obtain ⟨value, _, _, _, ⟨⟨-, plain⟩, rfl⟩, rfl, rfl⟩ := marked_taken way
    exact ⟨value, ⟨mark, quote, .inr ⟨rfl, fun member => by simpa using plain mark member⟩⟩, rfl⟩
  have triple (mark : Char) (quote : Text.isQuote mark = true) (way : (exactly [mark, mark, mark] ++
      capture 2 (shortest 0 fun _ => true) ++ exactly [mark, mark, mark]).Takes
        (lastOf before (name ++ gap ++ [':'] ++ gap')) written rest k) : ∃ value, IsLiteral written value ∧ k = [(2, value)] := by
    obtain ⟨value, _, _, _, ⟨-, rfl⟩, rfl, rfl⟩ := marked_taken way
    exact ⟨value, ⟨mark, quote, .inl rfl⟩, rfl⟩
  obtain ⟨value, said, rfl⟩ : ∃ value, IsLiteral written value ∧ k = [(2, value)] := by
    rcases literal with way | way | way | way
    · exact triple '\'' rfl way
    · exact triple '"' rfl way
    · exact single '\'' rfl way
    · exact single '"' rfl way
  exact ⟨name, gap, gap', written, value, blank, blank', said, rfl, rfl⟩

theorem bare_argument_taken {before : Option Char} {taken rest : Text} {k : Texts}
    (way : bareArgument.Takes before taken rest k) : ∃ name gap gap' c value,
      (∀ c ∈ gap, Text.isBlank c = true) ∧ (∀ c ∈ gap', Text.isBlank c = true) ∧ Text.isQuote c = false ∧
      Text.isBlank c = false ∧ k = [(2, c :: value), (1, name)] ∧ taken = name ++ gap ++ [':'] ++ gap' ++ c :: value := by
  have shape : bareArgument = Script.argumentName ++ capture 2 (orElse (exactly ['t', 'r', 'u', 'e']) (orElse
    (exactly ['f', 'a', 'l', 's', 'e']) (orElse (exactly ['-']) empty ++ longest 1 Text.isDecimal))) ++ edge := rfl
  rw [shape] at way
  obtain ⟨_, _, _, _, toValue, ⟨-, rfl, rfl⟩, rfl, rfl⟩ := then_takes.1 way
  obtain ⟨_, value, _, _, named, ⟨_, told, rfl⟩, rfl, rfl⟩ := then_takes.1 toValue
  obtain ⟨name, gap, gap', blank, blank', rfl, rfl⟩ := argument_name_taken named
  have decimal {c : Char} (digit : Text.isDecimal c = true) : Text.isQuote c = false ∧ Text.isBlank c = false := by
    constructor
    · refine Bool.eq_false_iff.2 fun quote => ?_
      rcases Bool.or_eq_true_iff.1 quote with same | same <;> rw [beq_iff_eq.1 same] at digit <;> cases digit
    · refine Bool.eq_false_iff.2 fun blank => ?_
      have undigited : ∀ n ∈ Number.blankCodes, Text.isDecimal (Char.ofNat n) = false := by decide +kernel
      have other := undigited c.toNat (Number.blank_code blank)
      rw [Char.ofNat_toNat, digit] at other
      cases other
  obtain ⟨c, more, rfl, plain, solid, rfl⟩ : ∃ c more, value = c :: more ∧ Text.isQuote c = false ∧ Text.isBlank c = false ∧
      _ = ([] : Texts) := by
    rcases told with ⟨rfl, none⟩ | ⟨rfl, none⟩ | number
    · exact ⟨'t', _, rfl, rfl, rfl, none⟩
    · exact ⟨'f', _, rfl, rfl, rfl, none⟩
    · obtain ⟨sign, digits, signed, some_, all, rfl⟩ := then_longest.1 number
      obtain ⟨d, ds, rfl⟩ := List.exists_cons_of_ne_nil (List.ne_nil_of_length_pos some_)
      rcases signed with ⟨rfl, none⟩ | ⟨rfl, none⟩
      · exact ⟨'-', _, rfl, rfl, rfl, none⟩
      · have held := decimal (all d List.mem_cons_self)
        exact ⟨d, ds, rfl, held.1, held.2, none⟩
  exact ⟨name, gap, gap', c, more, blank, blank', plain, solid, rfl, by simp⟩

end Script

namespace CredentialReference

open Pattern

/-- A call written so that its shape tells the credential: no gap before its parenthesis or before the colon, and
    one argument that names a credential, a text in quotes that holds no quotes and comes before any closing
    parenthesis. -/
structure PlainCall (m : Match) : Prop where
  tight : m.text = m.captured 1 ++ ['(']
  single : ∃ front gap mark id back, Script.callArguments m =
      front ++ (argumentName ++ ':' :: (gap ++ mark :: (id ++ mark :: back))) ∧ ')' ∉ front ∧
    (∀ c ∈ gap, Text.isBlank c = true) ∧ Text.isQuote mark = true ∧ Unquoted id ∧ ¬ argumentName <:+: front ∧
    ¬ argumentName <:+: gap ++ mark :: (id ++ mark :: back)

theorem call_bound {m : Match} {b : CredentialBinding} (bound : Feature.bindingOf? m = some b) :
    b.form.name = m.captured 1 ∧ ∃ n, (n ∈ Script.literalArgument.allMatches (Script.callArguments m) ∨
      n ∈ Script.bareArgument.allMatches (Script.callArguments m)) ∧ n.captured 1 = argumentName ∧
      n.captured 2 = b.sourceId := by
  obtain ⟨sourceId, told, rest⟩ := Option.bind_eq_some_iff.1 bound
  obtain ⟨form, known, rest⟩ := Option.bind_eq_some_iff.1 rest
  split at rest
  · cases rest
  · obtain rfl := Option.some.inj rest
    refine ⟨by simpa using List.find?_some known, ?_⟩
    obtain ⟨n, listed, pair⟩ := List.mem_map.1 (Keyed.mem_of_mem_firstOfPairs (Keyed.mem_of_get? told))
    obtain ⟨name, value⟩ := Prod.mk.inj pair
    exact ⟨n, List.mem_append.1 listed, name, value⟩

theorem quote_solid {c : Char} (quote : Text.isQuote c = true) : Text.isBlank c = false :=
  Bool.eq_false_iff.2 fun blank => absurd (Text.blank_no_quote blank) (by rw [quote]; exact Bool.noConfusion)

section Values

variable {arguments front gap id back : Text} {mark : Char}
  (whole : arguments = front ++ (argumentName ++ ':' :: (gap ++ mark :: back)))
  (blank : ∀ c ∈ gap, Text.isBlank c = true) (opens : Text.isQuote mark = true)
  (once : ¬ argumentName <:+: front) (alone : ¬ argumentName <:+: gap ++ mark :: back)

include whole blank opens once alone

-- An argument that has the name is the only one that has it, so that its value stands where that one's does.
theorem value_placed {pre gap₁ gap₂ rest : Text} {c : Char}
    (same : arguments = pre ++ (argumentName ++ (gap₁ ++ ':' :: (gap₂ ++ c :: rest))))
    (blank₁ : ∀ c ∈ gap₁, Text.isBlank c = true) (blank₂ : ∀ c ∈ gap₂, Text.isBlank c = true)
    (start : Text.isBlank c = false) : c = mark ∧ rest = back := by
  have gaps {g : Text} (blank : ∀ c ∈ g, Text.isBlank c = true) : ∀ c ∈ g, (!Text.isBlank c) = false :=
    fun c member => by rw [blank c member]; rfl
  have cut {c : Char} (solid : Text.isBlank c = false) : (!Text.isBlank c) = true := by rw [solid]; rfl
  rcases name_cases (whole.symm.trans same) with ⟨z, early⟩ | ⟨-, here⟩ | ⟨z, -, late⟩
  · exact absurd ⟨pre, z, by rw [early, List.append_assoc]⟩ once
  · cases gap₁ with
    | nil =>
      obtain ⟨-, same, rest⟩ :=
        Text.cut_unique (List.cons.inj here).2 (gaps blank) (gaps blank₂) (cut (quote_solid opens)) (cut start)
      exact ⟨same.symm, rest.symm⟩
    | cons d gap₁ =>
      obtain ⟨rfl, -⟩ := List.cons.inj here
      exact absurd (blank₁ _ List.mem_cons_self) (by decide)
  · obtain ⟨z, -, tail⟩ := name_behind (by decide) late
    exact absurd ⟨z, _, by rw [tail, List.append_assoc]⟩ alone

-- A literal under the name says what stands between the quotes there.
theorem literal_bound {n : Match} (ends : ∃ after, back = id ++ mark :: after) (plain : Unquoted id)
    (listed : n ∈ Script.literalArgument.allMatches arguments) (named : n.captured 1 = argumentName) : n.captured 2 = id := by
  obtain ⟨after, rfl⟩ := ends
  obtain ⟨pre, taken, rest, k, found⟩ := all_matches_found listed
  obtain ⟨name, gap₁, gap₂, written, said, blank₁, blank₂, ⟨c, quote, literal⟩, rfl, rfl⟩ :=
    Script.literal_argument_taken found.way
  obtain rfl : name = argumentName := (found.captured 1).symm.trans named
  refine (found.captured 2).trans ?_
  change said = id
  have unquoted : c ∉ id := fun member => absurd (plain.2 c member) (by rw [quote]; exact Bool.noConfusion)
  rcases literal with rfl | ⟨rfl, single⟩
  · -- Behind the first of three marks would stand the second, where the id begins.
    have same : arguments = pre ++ (argumentName ++ (gap₁ ++ ':' :: (gap₂ ++ c :: (c :: c :: (said ++ [c, c, c] ++ rest))))) := by
      rw [found.whole]
      simp [List.append_assoc]
    obtain ⟨rfl, triple⟩ := value_placed whole blank opens once alone same blank₁ blank₂ (quote_solid quote)
    obtain ⟨d, id, rfl⟩ := List.exists_cons_of_ne_nil plain.1
    obtain ⟨rfl, -⟩ := List.cons.inj triple
    exact absurd List.mem_cons_self unquoted
  · have same : arguments = pre ++ (argumentName ++ (gap₁ ++ ':' :: (gap₂ ++ c :: (said ++ c :: rest)))) := by
      rw [found.whole]
      simp [List.append_assoc]
    obtain ⟨rfl, ends⟩ := value_placed whole blank opens once alone same blank₁ blank₂ (quote_solid quote)
    have apart {t : Text} (absent : c ∉ t) : ∀ d ∈ t, (d == c) = false :=
      fun d member => beq_eq_false_iff_ne.2 fun same => absent (same ▸ member)
    exact (Text.cut_unique ends (apart single) (apart unquoted) (beq_self_eq_true c) (beq_self_eq_true c)).1

theorem bare_unbound {n : Match} (listed : n ∈ Script.bareArgument.allMatches arguments) : n.captured 1 ≠ argumentName := by
  intro named
  obtain ⟨pre, taken, rest, k, found⟩ := all_matches_found listed
  obtain ⟨name, gap₁, gap₂, c, more, blank₁, blank₂, unquoted, solid, rfl, rfl⟩ := Script.bare_argument_taken found.way
  obtain rfl : name = argumentName := (found.captured 1).symm.trans named
  have same : arguments = pre ++ (argumentName ++ (gap₁ ++ ':' :: (gap₂ ++ c :: (more ++ rest)))) := by
    rw [found.whole]
    simp [List.append_assoc]
  obtain ⟨rfl, -⟩ := value_placed whole blank opens once alone same blank₁ blank₂ solid
  rw [opens] at unquoted
  cases unquoted

end Values

-- The extractor binds the credential that the only such argument names.
theorem bound_id {arguments front gap id back : Text} {mark : Char} {n : Match}
    (whole : arguments = front ++ (argumentName ++ ':' :: (gap ++ mark :: (id ++ mark :: back))))
    (blank : ∀ c ∈ gap, Text.isBlank c = true) (opens : Text.isQuote mark = true) (plain : Unquoted id)
    (once : ¬ argumentName <:+: front) (alone : ¬ argumentName <:+: gap ++ mark :: (id ++ mark :: back))
    (listed : n ∈ Script.literalArgument.allMatches arguments ∨ n ∈ Script.bareArgument.allMatches arguments)
    (named : n.captured 1 = argumentName) : n.captured 2 = id := by
  rcases listed with literal | bare
  · exact literal_bound whole blank opens once alone ⟨back, rfl⟩ plain literal named
  · exact absurd named (bare_unbound whole blank opens once alone bare)

section Calls

theorem typed_named : ∀ form ∈ Feature.typedForms, StepName form.name := by
  have named (form : BindingForm) (held : form.name ≠ [] ∧ (∀ c ∈ form.name, Text.isWord c = true) ∧
      ¬ argumentName <:+: form.name) : StepName form.name := ⟨held.1, held.2.1, held.2.2⟩
  intro form member
  refine named form ?_
  revert form
  decide +kernel

theorem typed_names : ∀ form ∈ Feature.typedForms, form.name ≠ BindingForm.environment.name := by decide

theorem by_step (step : String) : bySteps [step] "credentialsId" = stepCall step.toList := rfl

theorem typed_known : ∀ form ∈ Feature.typedForms, ∃ r ∈ all, r.pattern = stepCall form.name := by
  simp only [Feature.typedForms, List.forall_mem_cons]
  refine ⟨?_, ?_, ?_, ?_, ?_, List.forall_mem_nil _⟩
  · exact ⟨⟨bySteps ["usernamePassword"] "credentialsId", .usernamePassword, "Username/password binding"⟩, by simp [all],
      by_step _⟩
  · exact ⟨⟨bySteps ["sshUserPrivateKey"] "credentialsId", .sshUserPrivateKey, "SSH private key binding"⟩, by simp [all],
      by_step _⟩
  · exact ⟨⟨bySteps ["certificate"] "credentialsId", .file, "Certificate binding"⟩, by simp [all], by_step _⟩
  · exact ⟨⟨bySteps ["string"] "credentialsId", .string, "Secret text binding"⟩, by simp [all], by_step _⟩
  · exact ⟨⟨bySteps ["file"] "credentialsId", .file, "Secret file binding"⟩, by simp [all], by_step _⟩

theorem binding_taken {before : Option Char} {taken rest : Text} {k : Texts}
    (way : Feature.bindingCall.Takes before taken rest k) : ∃ form ∈ Feature.typedForms, ∃ gap,
      before.any Text.isWord = false ∧ k = [(1, form.name)] ∧ taken = form.name ++ gap ++ ['('] := by
  have shape : Feature.bindingCall = edge ++ capture 1 (anyOf (Feature.typedForms.map fun form => exactly form.name)) ++
    blanks ++ exactly ['('] := rfl
  rw [shape] at way
  obtain ⟨_, toGap, rfl⟩ := then_exactly.1 way
  obtain ⟨_, gap, toName, -, rfl⟩ := then_blanks.1 toGap
  obtain ⟨_, name, _, _, starts, ⟨_, one_, rfl⟩, rfl, rfl⟩ := then_takes.1 toName
  obtain ⟨form, member, rfl, rfl⟩ := any_exactly one_
  have letter : (form.name ++ (gap ++ (['('] ++ rest))).head?.any Text.isWord = true := by
    obtain ⟨c, r, same, word⟩ := (typed_named form member).begins
    rw [same]
    exact word
  obtain ⟨outside, rfl, rfl⟩ := (edge_before letter).1 starts
  exact ⟨form, member, gap, outside, rfl, rfl⟩

theorem typed_form {source : Text} {m : Match} {b : CredentialBinding} (listed : m ∈ Feature.bindingCall.allMatches source)
    (bound : Feature.bindingOf? m = some b) : b.form ≠ .environment := by
  obtain ⟨pre, taken, rest, k, found⟩ := all_matches_found listed
  obtain ⟨form, member, gap, -, rfl, -⟩ := binding_taken found.way
  intro same
  have name := (call_bound bound).1.trans (found.captured 1)
  rw [same] at name
  exact typed_names form member name.symm

-- The name does not stand within the arguments, so that it comes behind the parenthesis that closes them.
theorem name_beyond {u w z y : Text} (tail : u ++ ')' :: w = z ++ (argumentName ++ y)) (alone : ¬ argumentName <:+: u) :
    ')' ∈ z := by
  rcases List.append_eq_append_iff.1 tail with ⟨t, rfl, late⟩ | ⟨t, rfl, late⟩
  · obtain ⟨t, rfl, -⟩ := name_behind (by decide) late
    simp
  · have nameless : ')' ∉ argumentName := by decide
    have inside := Text.prefix_before nameless ⟨y, late⟩
    exact absurd (inside.isInfix.trans (List.suffix_append z t).isInfix) alone

theorem call_scanned {script : Text} {m : Match} {b : CredentialBinding}
    (listed : m ∈ Feature.bindingCall.allMatches (Script.stripComments script)) (bound : Feature.bindingOf? m = some b)
    (plain : PlainCall m) (named : Text.trim b.sourceId ≠ []) :
    (∃ h ∈ scan script, h.sourceId = Text.trim b.sourceId) ∨ ∃ h ∈ scan script, b.form.name ++ ['('] <:+: h.sourceId := by
  obtain ⟨pre, taken, rest, k, found⟩ := all_matches_found listed
  obtain ⟨form, member, gap, outside, rfl, rfl⟩ := binding_taken found.way
  obtain ⟨name, n, listed, own, said⟩ := call_bound bound
  have called : m.captured 1 = form.name := found.captured 1
  rw [called] at name
  have stepped := typed_named form member
  obtain ⟨r, known, shape⟩ := typed_known form member
  obtain ⟨front, gap', mark, id, back, whole, open_, blank, opens, unquoted, once, alone⟩ := plain.single
  have tight : form.name ++ gap ++ ['('] = form.name ++ ['('] := by
    rw [← found.text, plain.tight, called]
  have same := found.whole
  rw [tight] at same
  have bound_ : b.sourceId = id := said.symm.trans (bound_id whole blank opens unquoted once alone listed own)
  rw [bound_] at named ⊢
  rw [name]
  refine caught_scanned known (by simp) stepped.solid named ?_
  rw [shape]
  rw [Script.callArguments, found.after] at whole
  rcases Script.enclosed_ends '(' ')' rest with ends | ⟨w, ends⟩ <;> rw [whole] at ends
  · refine call_caught (w := back) stepped ?_ outside open_ blank opens unquoted opens once fun x y begins => ?_
    · rw [same, ends]
      simp [List.append_assoc]
    · obtain ⟨z, -, tail⟩ := name_behind (by decide) begins
      exact absurd ⟨z, y, by rw [tail, List.append_assoc]⟩ alone
  · refine call_caught (w := back ++ ')' :: w) stepped ?_ outside open_ blank opens unquoted opens once fun x y begins => ?_
    · rw [same, ends]
      simp [List.append_assoc]
    · obtain ⟨z, rfl, tail⟩ := name_behind (by decide) begins
      have tail : (gap' ++ mark :: (id ++ mark :: back)) ++ ')' :: w = z ++ (argumentName ++ y) := by
        rw [← tail]
        simp [List.append_assoc]
      exact List.mem_cons_of_mem _ (name_beyond tail alone)

end Calls

section Lookups

theorem assignment_taken {before : Option Char} {taken rest : Text} {k : Texts}
    (way : Feature.assignmentLine.Takes before taken rest k) : ∃ front gap raw back,
      (∀ c ∈ gap, Text.isBlank c = true) ∧ textIn k 2 = raw ∧ taken = front ++ '=' :: gap ++ (raw ++ back) := by
  have shape : Feature.assignmentLine = lineStart ++ blanks ++ capture 1 Feature.identifierPattern ++ blanks ++
    exactly ['='] ++ blanks ++ capture 2 (shortest 1 (· != '\n')) ++ blanks ++ optional (exactly [';']) ++ blanks ++
    lineEnd := rfl
  rw [shape] at way
  obtain ⟨_, _, _, _, toBlank, ⟨-, rfl, rfl⟩, rfl, rfl⟩ := then_takes.1 way
  obtain ⟨_, gap₃, toMark, -, rfl⟩ := then_blanks.1 toBlank
  obtain ⟨_, mark, _, _, toGap, ended, rfl, rfl⟩ := then_takes.1 toMark
  obtain rfl : _ = ([] : Texts) := ended.elim And.right And.right
  obtain ⟨_, gap₂, toRaw, -, rfl⟩ := then_blanks.1 toGap
  obtain ⟨_, raw, _, _, toSign, ⟨_, -, rfl⟩, rfl, rfl⟩ := then_takes.1 toRaw
  obtain ⟨_, gap, toEqual, blank, rfl⟩ := then_blanks.1 toSign
  obtain ⟨front, -, rfl⟩ := then_exactly.1 toEqual
  exact ⟨front, gap, raw, gap₂ ++ (mark ++ gap₃), blank, rfl, by simp [List.append_assoc]⟩

-- What is assigned stands in the script, behind no letter.
theorem assignment_placed {source name raw : Text} (listed : (name, raw) ∈ Feature.assignments source) :
    ∃ pre w, source = pre ++ (raw ++ w) ∧ pre.getLast?.any Text.isWord = false := by
  obtain ⟨b, block, inside⟩ := List.mem_flatMap.1 listed
  obtain ⟨m, line, pair⟩ := List.mem_map.1 inside
  obtain ⟨-, rfl⟩ := Prod.mk.inj pair
  obtain ⟨pre, w, whole, -, -⟩ := Script.block_placed block
  obtain ⟨pre', taken, rest, k, found⟩ := all_matches_found line
  obtain ⟨front, gap, raw, back, blank, caught, rfl⟩ := assignment_taken found.way
  rw [found.captured 2, caught]
  refine ⟨pre ++ ['\x7b'] ++ pre' ++ front ++ '=' :: gap, back ++ rest ++ w, ?_, ?_⟩
  · rw [whole, found.whole]
    simp [List.append_assoc]
  · rw [List.getLast?_append, List.getLast?_cons, Option.some_or, Option.any_some]
    cases last : gap.getLast? with
    | none => decide
    | some c => exact Text.blank_no_word (blank c (List.mem_of_getLast? last))

theorem credential_taken {before : Option Char} {taken rest : Text} {k : Texts}
    (way : Feature.credentialLookup.Takes before taken rest k) : ∃ gap mark id close after,
      (∀ c ∈ gap, Text.isBlank c = true) ∧ Text.isQuote mark = true ∧ Unquoted id ∧ Text.isQuote close = true ∧
      (∀ c ∈ after, Text.isBlank c = true) ∧ textIn k 1 = id ∧
      taken = lookupOpening ++ gap ++ mark :: (id ++ [close]) ++ after ++ [')'] := by
  have shape : Feature.credentialLookup = exactly lookupOpening ++ blanks ++ quoteMark ++ unquoted 1 ++ quoteMark ++
    blanks ++ exactly [')'] ++ textEnd := rfl
  rw [shape] at way
  obtain ⟨_, _, _, _, toClose, ⟨-, rfl, rfl⟩, rfl, rfl⟩ := then_takes.1 way
  obtain ⟨_, toAfter, rfl⟩ := then_exactly.1 toClose
  obtain ⟨_, after, toQuote, blank', rfl⟩ := then_blanks.1 toAfter
  obtain ⟨_, _, _, _, toId, ⟨⟨close, closes, rfl⟩, rfl⟩, rfl, rfl⟩ := then_takes.1 toQuote
  obtain ⟨_, id, _, _, toMark, ⟨_, ⟨⟨long, plain⟩, rfl⟩, rfl⟩, rfl, rfl⟩ := then_takes.1 toId
  obtain ⟨_, _, _, _, toGap, ⟨⟨mark, opens, rfl⟩, rfl⟩, rfl, rfl⟩ := then_takes.1 toMark
  obtain ⟨_, gap, ⟨rfl, rfl⟩, blank, rfl⟩ := then_blanks.1 toGap
  refine ⟨gap, mark, id, close, after, blank, opens, ⟨List.ne_nil_of_length_pos long, fun c member => ?_⟩, closes, blank',
    rfl, by simp [List.append_assoc]⟩
  simpa using plain c member

theorem lookup_scanned {script : Text} {b : CredentialBinding}
    (listed : b ∈ Feature.environmentBindings (Script.stripComments script)) (named : Text.trim b.sourceId ≠ []) :
    (∃ h ∈ scan script, h.sourceId = Text.trim b.sourceId) ∨ ∃ h ∈ scan script, b.form.name ++ ['('] <:+: h.sourceId := by
  obtain ⟨⟨name, raw⟩, assigned, made⟩ := List.mem_filterMap.1 listed
  obtain ⟨id, looked, rfl⟩ := Option.map_eq_some_iff.1 made
  obtain ⟨m, found, rfl⟩ := Option.map_eq_some_iff.1 looked
  obtain ⟨pre, w, whole, outside⟩ := assignment_placed assigned
  have front : Feature.credentialLookup.matchAt ⟨([] : Text).getLast?, raw, ([] : Text).length⟩ = some m := found
  obtain ⟨taken, rest, k, place⟩ := match_found front
  obtain ⟨gap, mark, id, close, after, blank, opens, unquoted, closes, blank', caught, rfl⟩ := credential_taken place.way
  have told : m.captured 1 = id := (place.captured 1).trans caught
  dsimp only at named ⊢
  rw [told] at named ⊢
  have opening : BindingForm.environment.name ++ ['('] = lookupOpening := by decide
  have raw_ : raw = lookupOpening ++ gap ++ mark :: (id ++ [close]) ++ after ++ [')'] ++ rest := place.whole
  rw [raw_, List.append_assoc] at whole
  rw [opening]
  have known : (⟨lookup, .step, "credentials() lookup"⟩ : CredentialReference) ∈ all := List.mem_cons_self
  exact caught_scanned known (by decide) (by decide) named
    (lookup_caught whole outside blank opens unquoted closes blank')

end Lookups

section Bindings

variable {excluded : List Text} {script : Text}

theorem bindings_of_source {e : Extraction} (read : Extraction.of excluded script = .ok e) :
    e.features.credentialBindings = Keyed.distinct (Feature.credentialBindings (Script.stripComments script) ++
      Feature.environmentBindings (Script.stripComments script)) := by
  obtain ⟨f, source, same⟩ := Extraction.of_features read
  obtain ⟨minutes, -, source⟩ := Outcome.bind_ok source
  obtain ⟨count, -, source⟩ := Outcome.bind_ok source
  obtain ⟨retention, -, source⟩ := Outcome.bind_ok source
  rw [same, ← Except.ok.inj source]

/-- Every credential that is bound comes out of the scan when its call is written plainly, or it stands in the
    quotes of a reference that does. -/
theorem bindings_scanned {e : Extraction} {b : CredentialBinding} (read : Extraction.of excluded script = .ok e)
    (bound : b ∈ e.features.credentialBindings) (named : Text.trim b.sourceId ≠ [])
    (plain : b.form ≠ .environment → ∃ m ∈ Feature.bindingCall.allMatches (Script.stripComments script),
      Feature.bindingOf? m = some b ∧ PlainCall m) :
    (∃ h ∈ scan script, h.sourceId = Text.trim b.sourceId) ∨ ∃ h ∈ scan script, b.form.name ++ ['('] <:+: h.sourceId := by
  rw [bindings_of_source read, Keyed.mem_distinct, List.mem_append] at bound
  rcases bound with typed | looked
  · obtain ⟨m, listed, made⟩ := List.mem_filterMap.1 typed
    obtain ⟨m, listed, made, plain⟩ := plain (typed_form listed made)
    exact call_scanned listed made plain named
  · exact lookup_scanned looked named

end Bindings

-- A call written plainly, and the same with a gap before its parenthesis.
def plainScript : Text := "string(credentialsId: 'deploy-key', variable: 'KEY')"
def gappedScript : Text := "string (credentialsId: 'deploy-key', variable: 'KEY')"

def keyBinding : CredentialBinding := ⟨"deploy-key", .string, [("variable", "KEY")]⟩

theorem extraction_binds (script : Text) (bindings : List CredentialBinding)
    (read : ((FeatureSet.ofSource (Script.stripComments script)).toOption.map (·.credentialBindings)) = some bindings) :
    ∃ e, Extraction.of [] script = .ok e ∧ e.features.credentialBindings = bindings := by
  obtain ⟨f, source, rfl⟩ := Option.map_eq_some_iff.1 read
  cases made : FeatureSet.ofSource (Script.stripComments script) with
  | error fault =>
    rw [made] at source
    cases source
  | ok g =>
    rw [made] at source
    obtain rfl := Option.some.inj source
    unfold Extraction.of
    dsimp only
    rw [made]
    dsimp only [bind, Except.bind]
    split
    · exact ⟨_, rfl, rfl⟩
    · exact ⟨_, rfl, rfl⟩

theorem plain_key_scanned : ∃ e, Extraction.of [] plainScript = .ok e ∧ keyBinding ∈ e.features.credentialBindings ∧
    ((∃ h ∈ scan plainScript, h.sourceId = Text.trim keyBinding.sourceId) ∨
      ∃ h ∈ scan plainScript, keyBinding.form.name ++ ['('] <:+: h.sourceId) := by
  obtain ⟨e, read, same⟩ := extraction_binds plainScript [keyBinding] (by decide +kernel)
  have bound : keyBinding ∈ e.features.credentialBindings := by
    rw [same]
    exact List.mem_singleton.2 rfl
  refine ⟨e, read, bound, bindings_scanned read bound (by decide) fun _ => ?_⟩
  have found : ∃ m ∈ Feature.bindingCall.allMatches (Script.stripComments plainScript),
      Feature.bindingOf? m = some keyBinding ∧ m.text = m.captured 1 ++ ['('] ∧
        Script.callArguments m = [] ++ (argumentName ++ ':' :: ([' '] ++ '\'' :: (keyBinding.sourceId ++ '\'' ::
          ", variable: 'KEY'".toList))) := by decide +kernel
  obtain ⟨m, listed, made, tight, arguments⟩ := found
  exact ⟨m, listed, made, tight, [], [' '], '\'', keyBinding.sourceId, _, arguments, by decide, by decide, rfl,
    ⟨by decide, by decide⟩, by decide +kernel, by decide +kernel⟩

/-- With a gap before its parenthesis the call is bound and not found. -/
theorem gapped_key_missed : ∃ e, Extraction.of [] gappedScript = .ok e ∧ keyBinding ∈ e.features.credentialBindings ∧
    Text.trim keyBinding.sourceId ≠ [] ∧ scan gappedScript = [] := by
  obtain ⟨e, read, same⟩ := extraction_binds gappedScript [keyBinding] (by decide +kernel)
  refine ⟨e, read, ?_, by decide, by decide +kernel⟩
  rw [same]
  exact List.mem_singleton.2 rfl

end CredentialReference
end PipelineMigration
