import PipelineMigration.Credential.EnvFile
import PipelineMigration.Credential.Reference
import PipelineMigration.Proofs.Credential.KeyForm
set_option autoImplicit false

/- Reading the template of assignments back. Blank lines and comments are passed over; what is left is an assignment for
   each variable, and whatever gets out of a comment that describes one. -/
namespace PipelineMigration

namespace Text

/-- Which characters end a line. Line feeds do, and nothing but line breaks does. -/
structure LineReader where
  ends : Char → Bool
  feed : ends '\n' = true
  breaks : ∀ c, ends c = true → isLineBreak c = true

namespace LineReader

def feeds : LineReader := ⟨(· == '\n'), rfl, fun c feed => by rw [beq_iff_eq.1 feed]; rfl⟩
def unicode : LineReader := ⟨isLineBreak, rfl, fun _ breaks => breaks⟩

def lines (r : LineReader) (s : Text) : List Text := splitWhere r.ends s

-- A line feed behind a carriage return ends an empty line of its own, which is no entry.
example : unicode.lines "a\r\nb" = ["a".toList, [], "b".toList] := by decide

/-- Whether a line is neither blank nor a comment. -/
def isEntry (line : Text) : Bool := !line.all isBlank && line.head? != some '#'

def entries (r : LineReader) (s : Text) : List Text := (r.lines s).filter isEntry

/-- What a comment on several lines has besides comments and blank lines. -/
def strays (r : LineReader) (comment : Text) : List Text := (r.lines comment).tail.filter isEntry

def Holds (r : LineReader) (s : Text) : Prop := ∀ c ∈ s, r.ends c = false

end LineReader

section Pieces

variable {p : Char → Bool}

theorem split_where_eq (s : Text) : splitWhere p s = s.splitOnP p := by
  induction s with
  | nil => rw [splitWhere, List.splitOnP_nil]
  | cons c s ih =>
    rw [splitWhere, List.splitOnP_cons_eq_if_modifyHead, ih]
    cases pieces : s.splitOnP p with
    | nil => exact absurd pieces (List.splitOnP_ne_nil p s)
    | cons w ws => rfl

theorem split_joined (feed : p '\n' = true) {parts : List Text} (filled : parts ≠ []) :
    splitWhere p (join "\n" parts) = parts.flatMap (splitWhere p) := by
  induction parts with
  | nil => exact absurd rfl filled
  | cons w rest ih =>
    cases rest with
    | nil => simp [join]
    | cons v rest =>
      have step : join "\n" (w :: v :: rest) = w ++ '\n' :: join "\n" (v :: rest) := by simp [join, List.intercalate]
      rw [step, split_where_eq, List.splitOnP_append_cons _ _ feed, ← split_where_eq, ← split_where_eq,
        ih (List.cons_ne_nil v rest)]
      rfl

end Pieces

namespace LineReader

variable (r : LineReader) {s t : Text}

theorem Holds.append {r : LineReader} (first : r.Holds s) (second : r.Holds t) : r.Holds (s ++ t) :=
  List.forall_mem_append.2 ⟨first, second⟩

theorem holds_of_plain (plain : ∀ c ∈ s, isLineBreak c = false) : r.Holds s := by
  intro c member
  by_cases ends : r.ends c = true
  · have breaks := r.breaks c ends
    rw [plain c member] at breaks
    cases breaks
  · exact Bool.eq_false_iff.2 ends

theorem lines_one (holds : r.Holds s) : r.lines s = [s] := by
  rw [lines, split_where_eq, List.splitOnP_eq_singleton holds]

theorem entries_joined {parts : List Text} (filled : parts ≠ []) :
    r.entries (join "\n" parts) = parts.flatMap r.entries := by
  unfold entries LineReader.lines
  rw [split_joined r.feed filled, List.filter_flatMap]

-- A comment is no entry, but what stands on its further lines may be.
theorem entries_comment (s : Text) : r.entries ('#' :: s) = r.strays ('#' :: s) := by
  have plain : r.ends '#' = false := by
    have holds : r.Holds ['#'] := r.holds_of_plain (by decide)
    exact holds '#' (List.mem_singleton.2 rfl)
  unfold entries strays LineReader.lines
  rw [splitWhere, if_neg (by simp [plain])]
  cases splitWhere r.ends s <;> rfl

theorem strays_one (holds : r.Holds s) : r.strays s = [] := by
  rw [strays, r.lines_one holds]
  rfl

end LineReader

end Text

namespace Credential

open Text KeyPolicy

def remarkLine (v : VariableSpec) : Text := "# " ++ v.description ++ " [" ++ v.flags ++ "] scope=" ++ v.scope

def assignmentLine (v : VariableSpec) : Text := v.key ++ '=' :: v.placeholder

section Entries

variable (r : LineReader) {v : VariableSpec}

theorem key_char_plain {c : Char} (char : (isKeyChar c || c == '_') = true) : isLineBreak c = false := by
  simp only [isKeyChar, isAsciiDigit, Bool.or_eq_true, Bool.and_eq_true, decide_eq_true_eq, beq_iff_eq, Char.le_def,
    UInt32.le_iff_toNat_le] at char
  have code : 48 ≤ c.toNat ∧ c.toNat ≤ 95 := by
    rcases char with (capital | digit) | rfl
    · exact ⟨Nat.le_trans (by decide) capital.1, Nat.le_trans capital.2 (by decide)⟩
    · exact ⟨digit.1, Nat.le_trans digit.2 (by decide)⟩
    · decide
  simp only [isLineBreak, Bool.or_eq_false_iff, Bool.and_eq_false_iff, decide_eq_false_iff_not, beq_eq_false_iff_ne]
  omega

theorem entries_assignment (key : HasKeyChars v.key) : r.entries (assignmentLine v) = [assignmentLine v] := by
  have value : ∀ c ∈ '=' :: v.placeholder, isLineBreak c = false := by
    unfold VariableSpec.placeholder
    cases v.valueKind <;> decide
  have plain : ∀ c ∈ assignmentLine v, isLineBreak c = false :=
    List.forall_mem_append.2 ⟨fun c member => key_char_plain (key c member), value⟩
  have filled : (assignmentLine v).all isBlank = false :=
    List.all_eq_false.2 ⟨'=', by simp [assignmentLine], by decide⟩
  have unmarked : (assignmentLine v).head? ≠ some '#' := by
    unfold assignmentLine
    cases named : v.key with
    | nil => simp
    | cons c rest =>
      intro mark
      obtain rfl := Option.some.inj mark
      exact absurd (key '#' (named ▸ List.mem_cons_self)) (by decide)
  have entry : LineReader.isEntry (assignmentLine v) = true := by simp [LineReader.isEntry, filled, unmarked]
  rw [LineReader.entries, r.lines_one (r.holds_of_plain plain), List.filter_cons_of_pos entry, List.filter_nil]

theorem entries_header : envFileHeader.flatMap r.entries = [] := by
  have plain : ∀ l ∈ envFileHeader, (∀ c ∈ l, isLineBreak c = false) ∧ LineReader.isEntry l = false := by decide +kernel
  refine List.flatMap_eq_nil_iff.2 fun l member => ?_
  obtain ⟨line, silent⟩ := plain l member
  rw [LineReader.entries, r.lines_one (r.holds_of_plain line)]
  simp [silent]

theorem entries_variable (key : HasKeyChars v.key) :
    (envFileEntry v).flatMap r.entries = r.strays (remarkLine v) ++ [assignmentLine v] := by
  have remark : r.entries (remarkLine v) = r.strays (remarkLine v) := r.entries_comment _
  have blank : r.entries [] = [] := rfl
  have lines : envFileEntry v = [remarkLine v, assignmentLine v, []] := rfl
  rw [lines]
  simp only [List.flatMap_cons, List.flatMap_nil, remark, entries_assignment r key, blank, List.append_nil]

-- What a template is read as.
theorem entries_env_file {specs : List VariableSpec} (keys : ∀ v ∈ specs, HasKeyChars v.key) :
    r.entries (envFile specs) = specs.flatMap fun v => r.strays (remarkLine v) ++ [assignmentLine v] := by
  have filled : envFileHeader ++ specs.flatMap envFileEntry ≠ [] := by simp [envFileHeader]
  rw [envFile, r.entries_joined filled, List.flatMap_append, entries_header, List.nil_append, List.flatMap_assoc,
    List.flatMap_def, List.flatMap_def]
  exact congrArg List.flatten (List.map_congr_left fun v member => entries_variable r (keys v member))

theorem strays_counted (specs : List VariableSpec) :
    specs.length ≤ (specs.flatMap fun v => r.strays (remarkLine v) ++ [assignmentLine v]).length := by
  induction specs with
  | nil => exact Nat.le_refl 0
  | cons v rest ih =>
    simp only [List.flatMap_cons, List.length_append, List.length_cons, List.length_nil]
    omega

-- Nothing but the assignments is read just when nothing gets out of a comment.
theorem entries_exact_iff {specs : List VariableSpec} (keys : ∀ v ∈ specs, HasKeyChars v.key) :
    r.entries (envFile specs) = specs.map assignmentLine ↔ ∀ v ∈ specs, r.strays (remarkLine v) = [] := by
  rw [entries_env_file r keys]
  clear keys
  induction specs with
  | nil => simp
  | cons v rest ih =>
    rw [List.flatMap_cons, List.map_cons, List.forall_mem_cons, ← ih]
    constructor
    · intro same
      -- As many lines as variables are left, so that the first one has no more than its own.
      have count := congrArg List.length same
      have others := strays_counted r rest
      simp only [List.length_append, List.length_cons, List.length_nil, List.length_map] at count
      have none : r.strays (remarkLine v) = [] := List.eq_nil_of_length_eq_zero (by omega)
      rw [none] at same
      exact ⟨none, (List.cons.inj same).2⟩
    · rintro ⟨none, same⟩
      rw [none, same]
      rfl

end Entries

section Plans

variable (r : LineReader) {options : PlanOptions} {hit : CredentialHit} {v : VariableSpec}

theorem flags_plain (v : VariableSpec) : ∀ c ∈ v.flags, isLineBreak c = false := by
  unfold VariableSpec.flags
  cases v.valueKind <;> cases v.masked <;> cases v.protected_ <;> decide

theorem remark_holds (described : r.Holds v.description) (limited : r.Holds v.scope) : r.Holds (remarkLine v) := by
  have plain {s : Text} (unbroken : ∀ c ∈ s, isLineBreak c = false) : r.Holds s := r.holds_of_plain unbroken
  unfold remarkLine
  refine .append (.append (.append (.append (.append (plain (by decide)) described) (plain (by decide)))
    (plain (flags_plain v))) (plain (by decide))) limited

/-- What a caller gives for a credential holds no end of a line, as far as it is told in comments. -/
structure MappingHolds (m : CustomMapping) : Prop where
  scope : r.Holds (m.scope.getD [])
  description : r.Holds (m.description.getD [])

/-- What the options tell in comments holds no end of a line. -/
structure OptionsHold (options : PlanOptions) : Prop where
  scope : r.Holds options.environmentScope
  custom : ∀ entry ∈ options.customMappings, MappingHolds r entry.2

theorem given_holds {given : Option Text} {otherwise : Text} (own : r.Holds (given.getD []))
    (other : r.Holds otherwise) : r.Holds (givenOr given otherwise) := by
  unfold givenOr
  split
  · split
    · exact other
    · exact own
  · exact other

theorem classifier_texts_plain (hit : CredentialHit) : (∀ c ∈ (Classifier.of hit).description, isLineBreak c = false) ∧
    ∀ child ∈ (Classifier.of hit).children, ∀ c ∈ child.2, isLineBreak c = false :=
  classifier_held (P := fun c => (∀ d ∈ c.description, isLineBreak d = false) ∧
    ∀ child ∈ c.children, ∀ d ∈ child.2, isLineBreak d = false) (by decide +kernel) (by decide +kernel) hit

theorem origin_holds {description : Text} (plain : ∀ c ∈ description, isLineBreak c = false)
    (named : r.Holds hit.sourceId) : r.Holds (origin description hit.sourceId) :=
  .append (.append (.append (r.holds_of_plain plain) (r.holds_of_plain (by decide))) named)
    (r.holds_of_plain (by decide))

theorem planned_on_lines (told : OptionsHold r options) (named : r.Holds hit.sourceId)
    (member : v ∈ (planned {} options hit).specs) : r.Holds (remarkLine v) := by
  have custom : MappingHolds r ((Keyed.get? hit.sourceId options.customMappings).getD {}) := by
    cases found : Keyed.get? hit.sourceId options.customMappings with
    | none => exact ⟨List.forall_mem_nil _, List.forall_mem_nil _⟩
    | some m => exact told.custom _ (Keyed.mem_of_get? found)
  obtain ⟨described, parts⟩ := classifier_texts_plain hit
  have limited := given_holds r custom.scope told.scope
  unfold PlannedCredential.specs planned at member
  dsimp only at member
  split at member
  · rw [List.mem_singleton.1 member]
    exact remark_holds r (given_holds r custom.description (origin_holds r described named)) limited
  · obtain ⟨child, part, rfl⟩ := List.mem_map.1 member
    exact remark_holds r (origin_holds r (parts child part) named) limited

/-- The variables for what a script refers to. -/
def planOf (options : PlanOptions) (script : Text) : List VariableSpec :=
  resolve {} options (CredentialReference.scan script)

/-- The template of a plan is read as the assignments of its variables just when nothing but comments and blank lines gets
    out of the comments that describe them; so it is where no name, description or scope holds an end of a line. -/
theorem template_read_iff (r : LineReader) (options : PlanOptions) (script : Text) :
    (r.entries (envFile (planOf options script)) = (planOf options script).map assignmentLine ↔
      ∀ v ∈ planOf options script, r.strays (remarkLine v) = []) ∧
    (OptionsHold r options → (∀ hit ∈ CredentialReference.scan script, r.Holds hit.sourceId) →
      r.entries (envFile (planOf options script)) = (planOf options script).map assignmentLine) := by
  have exactly := entries_exact_iff r (resolve_key_chars options (CredentialReference.scan script))
  refine ⟨exactly, fun told named => exactly.2 fun v member => ?_⟩
  obtain ⟨hit, asked, own⟩ := resolve_planned member
  exact r.strays_one (planned_on_lines r told (named hit asked) own)

/-- A line feed in the name of a credential gets an assignment with a value into the template. -/
theorem value_smuggled :
    LineReader.feeds.entries (envFile (planOf {} "credentials('a\nB=1')")) =
      ["B=1) [text, masked, protected] scope=*".toList, "A_B_1=<ADD_VALUE>".toList] ∧
    (planOf {} "credentials('a\nB=1')").map assignmentLine = ["A_B_1=<ADD_VALUE>".toList] := by
  decide +kernel

end Plans
end Credential

end PipelineMigration
