import PipelineMigration.Extraction
import PipelineMigration.Proofs.Capability.Said
import PipelineMigration.Proofs.Configuration.Guarded
import PipelineMigration.Proofs.Credential.KeyForm
set_option autoImplicit false

/- What a script says does not get out of the comments that tell it, unless it breaks a line itself: a comment holds
   comments only just when every break in the names and conditions it tells is followed by a comment mark. Verdicts
   and keys never break a line. -/
namespace PipelineMigration

open Yaml

theorem KeyPolicy.HasKeyChars.line {s : Text} (held : HasKeyChars s) : OneLine s := by
  intro c member
  refine Bool.eq_false_iff.2 fun breaks => ?_
  have named := held c member
  simp only [isBreak, Bool.or_eq_true, beq_iff_eq] at breaks
  rcases breaks with (((rfl | rfl) | rfl) | rfl) | rfl <;> cases named

namespace Configuration

/-- No character is passed over before a comment mark, or spaces are. -/
def nothing : Char → Bool := fun _ => false
def spaces : Char → Bool := (· == ' ')

theorem nothing_unbroken : ∀ c, nothing c = true → isBreak c = false := fun _ none => nomatch none

theorem spaces_unbroken : ∀ c, spaces c = true → isBreak c = false := by
  intro c space
  rw [beq_iff_eq.1 space]
  rfl

section Parts

variable {skipped : Char → Bool} {front part mid other back : Text} {d e : Char}

-- A comment that tells a part of a script between texts of its own.
theorem told_remark (unbroken : ∀ c, skipped c = true → isBreak c = false)
    (opens : opensRemark skipped (front ++ part ++ back) = true) (before : OneLine front) (after : OneLine back)
    (head : back.head? = some d) (kept : skipped d = false) (mark : d ≠ '#') :
    onlyRemarks skipped (front ++ part ++ back) = isContained skipped part := by
  rw [only_remarks_eq unbroken, opens, Bool.true_and, contained_between before after head kept mark]

-- A comment that tells two parts.
theorem twice_told_remark (unbroken : ∀ c, skipped c = true → isBreak c = false)
    (opens : opensRemark skipped (front ++ part ++ mid ++ other ++ back) = true) (before : OneLine front)
    (between : OneLine mid) (first : mid.head? = some e) (kept : skipped e = false) (apart : e ≠ '#')
    (after : OneLine back) (head : back.head? = some d) (kept' : skipped d = false) (mark : d ≠ '#') :
    onlyRemarks skipped (front ++ part ++ mid ++ other ++ back) =
      (isContained skipped part && isContained skipped other) := by
  have rest := contained_between (s := other) between after head kept' mark
  cases mid with
  | nil => cases first
  | cons c mid =>
    obtain rfl := Option.some.inj first
    rw [only_remarks_eq unbroken, opens, Bool.true_and]
    simp only [List.append_assoc, List.cons_append] at rest ⊢
    rw [contained_behind before, contained_apart kept (between c List.mem_cons_self) apart, rest]

end Parts

section Advisories

theorem library_comment (library : Text) : commentLine (libraryRemark library) = "# [REVIEW] Shared library '".toList ++
    library ++ "' must be ported to an included template (include: project).".toList := by
  unfold commentLine libraryRemark Job.review
  simp only [List.append_assoc]
  rfl

theorem library_remark (library : Text) :
    onlyRemarks nothing (commentLine (libraryRemark library)) = isContained nothing library := by
  rw [library_comment]
  exact told_remark nothing_unbroken rfl (.literal rfl (by decide)) (.literal rfl (by decide)) (literal_head rfl) rfl
    (by decide)

/-- The condition of a guard as its comment tells it. -/
def conditionText (g : Guard) : Text := Text.trim (g.condition.name ++ ' ' :: g.expression)

theorem guard_remark (g : Guard) : onlyRemarks nothing (commentLine (guardRemark g)) =
    (isContained nothing g.stage && isContained nothing (conditionText g)) := by
  have named : isContained nothing (if g.stage.isEmpty then "unknown".toList else g.stage) = isContained nothing g.stage := by
    cases stage : g.stage with
    | nil => rfl
    | cons c r => rfl
  rw [condition_comment, ← named]
  exact twice_told_remark nothing_unbroken rfl (.literal rfl (by decide)) (.literal rfl (by decide)) (literal_head rfl) rfl
    (by decide) (.literal rfl (by decide)) (literal_head rfl) rfl (by decide)

-- A comment that stands on one line.
theorem line_remark {s : Text} (line : OneLine s) : onlyRemarks nothing (commentLine s) = true := by
  have whole : OneLine (commentLine s) := OneLine.append (by decide) line
  rw [only_remarks_eq nothing_unbroken, contained_one_line whole]
  rfl

-- A text that does not end in half of a break.
theorem whole_end {front back : Text} {d : Char} (line : OneLine back) (head : back.head? = some d) :
    (front ++ back).getLast? ≠ some '\r' := by
  cases back with
  | nil => cases head
  | cons c back =>
    rw [List.getLast?_append, List.getLast?_cons, Option.some_or]
    intro same
    have last := List.mem_of_getLast? (List.getLast?_cons.trans same)
    cases line _ last

variable {f : FeatureSet} {verdicts : List Verdict} (threshold : Float) (inJobs : List Text)

-- All lines of the advisories are comments just when the names and conditions they tell are contained.
theorem advisories_remarks_iff (lines : ∀ v ∈ verdicts, Capability.Verdict.OnLines v)
    (filled : advisories f verdicts threshold inJobs ≠ []) :
    onlyRemarks nothing (Text.join "\n" (advisories f verdicts threshold inJobs)) = true ↔
      (∀ l ∈ f.libraries, isContained nothing l = true) ∧ ∀ g ∈ f.guards, Job.isDeployStage g.stage = false →
        isContained nothing g.stage = true ∧ isContained nothing (conditionText g) = true := by
  have verdict (v : Verdict) (member : v ∈ verdicts.filter (isAdvised threshold inJobs)) (s : Text)
      (said : s ∈ Job.verdictComments threshold v) : OneLine s :=
    Job.verdict_comments_line (lines v (List.mem_filter.1 member).1) threshold s said
  have ends : ∀ l ∈ advisories f verdicts threshold inJobs, l.getLast? ≠ some '\r' := by
    simp only [advisories, List.forall_mem_append, List.forall_mem_map, List.forall_mem_flatMap]
    refine ⟨⟨fun library _ => ?_, fun v member s said => ?_⟩, fun g _ => ?_⟩
    · rw [library_comment]
      exact whole_end (.literal rfl (by decide)) (literal_head rfl)
    · have whole : OneLine (commentLine s) := OneLine.append (by decide) (verdict v member s said)
      exact fun last => absurd (whole _ (List.mem_of_getLast? last)) (by decide)
    · rw [condition_comment]
      exact whole_end (.literal rfl (by decide)) (literal_head rfl)
  have each : onlyRemarks nothing (Text.join "\n" (advisories f verdicts threshold inJobs)) =
      (advisories f verdicts threshold inJobs).all (onlyRemarks nothing) := by
    rw [onlyRemarks, reader_lines_joined _ filled ends, List.all_flatMap]
    rfl
  rw [each, List.all_eq_true, advisories]
  simp only [List.forall_mem_append, List.forall_mem_map, List.forall_mem_flatMap, library_remark, guard_remark,
    Bool.and_eq_true]
  constructor
  · rintro ⟨⟨libraries, -⟩, guards⟩
    exact ⟨libraries, fun g member other => guards g (List.mem_filter.2 ⟨member, by rw [other]; rfl⟩)⟩
  · rintro ⟨libraries, guards⟩
    refine ⟨⟨libraries, fun v member s said => line_remark (verdict v member s said)⟩, fun g member => ?_⟩
    obtain ⟨among, other⟩ := List.mem_filter.1 member
    exact guards g among (by simpa using other)

end Advisories

section Entries

variable (entries : List VariableEntry)

/-- A withheld entry as the section writes it: where all are withheld, without its indentation. -/
def entryLine (remark : Text) : Text :=
  if entries.all (·.isWithheld) then Text.trim ("  # ".toList ++ remark) else "  # ".toList ++ remark

theorem entry_in_section {remark : Text} (member : .withheld remark ∈ entries) :
    entryLine entries remark ∈ variableSection entries := by
  have line : "  # ".toList ++ remark ∈ entries.flatMap (·.lines) :=
    List.mem_flatMap.2 ⟨_, member, List.mem_singleton.2 rfl⟩
  unfold entryLine variableSection
  rw [if_neg (by simpa using List.ne_nil_of_mem member)]
  dsimp only
  split
  · exact List.mem_cons_of_mem _ (List.mem_map_of_mem line)
  · exact List.mem_cons_of_mem _ line

-- The remark stands in the line as it is, behind a mark.
theorem entry_line_eq {front back : Text} {d : Char} (last : back.getLast? = some d) (solid : Text.isBlank d = false) :
    entryLine entries (front ++ back) = "# ".toList ++ (front ++ back) ∨
      entryLine entries (front ++ back) = "  # ".toList ++ (front ++ back) := by
  obtain ⟨back, rfl⟩ := List.getLast?_eq_some_iff.1 last
  unfold entryLine
  split
  · left
    have left : Text.trimLeftBy Text.isBlank ("  # ".toList ++ (front ++ (back ++ [d]))) =
        ('#' :: ' ' :: (front ++ back)) ++ [d] := by simp [Text.trimLeftBy, List.dropWhile, Text.isBlank]
    rw [Text.trim, Text.trimBy, left, Text.trimRightBy, List.reverse_append, List.reverse_singleton, List.singleton_append,
      List.dropWhile_cons_of_neg (by rw [solid]; exact Bool.false_ne_true), List.reverse_cons, List.reverse_reverse]
    simp only [List.cons_append, List.append_assoc]
    rfl
  · exact .inr rfl

-- A withheld entry that tells a part of a script holds comments only just when the part is contained.
theorem entry_told {front part back : Text} {d e : Char} (before : OneLine front) (after : OneLine back)
    (head : back.head? = some d) (kept : spaces d = false) (mark : d ≠ '#') (last : back.getLast? = some e)
    (solid : Text.isBlank e = false) :
    onlyRemarks spaces (entryLine entries (front ++ part ++ back)) = isContained spaces part := by
  have lines : entryLine entries (front ++ part ++ back) = "# ".toList ++ (front ++ part ++ back) ∨
      entryLine entries (front ++ part ++ back) = "  # ".toList ++ (front ++ part ++ back) := entry_line_eq entries last solid
  rcases lines with line | line <;> rw [line, ← List.append_assoc, ← List.append_assoc]
  · exact told_remark spaces_unbroken rfl (.append (by decide) before) after head kept mark
  · exact told_remark spaces_unbroken rfl (.append (by decide) before) after head kept mark

theorem placeholder_line : OneLine ValueKind.valuePlaceholder := .literal rfl (by decide)

theorem password_told (name : Text) :
    onlyRemarks spaces (entryLine entries (passwordRemark name)) = isContained spaces name := by
  have same : passwordRemark name = [] ++ name ++ (": ".toList ++ (ValueKind.valuePlaceholder ++
      " (password parameter, define as a masked variable)".toList)) := by
    unfold passwordRemark
    simp only [List.append_assoc, List.nil_append]
  rw [same]
  refine entry_told entries (List.forall_mem_nil _) ?_ rfl rfl (by decide) ?_ (by decide) (e := ')')
  · exact .append (by decide) (.append placeholder_line (.literal rfl (by decide)))
  · rw [← List.append_assoc]
    exact literal_last rfl rfl

theorem default_told (name : Text) :
    onlyRemarks spaces (entryLine entries (removedRemark "default" name)) = isContained spaces name := by
  have same : removedRemark "default" name = (Job.reviewMarker ++ [' ']) ++ name ++ (": ".toList ++
      (ValueKind.valuePlaceholder ++ (" (".toList ++ ("default".toList ++
        " removed from the Jenkinsfile; define it as a masked variable)".toList)))) := by
    unfold removedRemark Job.review
    simp only [List.append_assoc]
    rfl
  rw [same]
  refine entry_told entries (by decide) ?_ rfl rfl (by decide) ?_ (by decide) (e := ')')
  · exact .append (by decide) (.append placeholder_line (.append (by decide) (.append (by decide) (.literal rfl (by decide)))))
  · simp only [← List.append_assoc]
    exact literal_last rfl rfl

-- What withholds a parameter tells its name and nothing else of the script.
theorem parameter_told {secrets : List Text} {p : Parameter} {remark : Text}
    (withheld : parameterEntry secrets p = .withheld remark) :
    onlyRemarks spaces (entryLine entries remark) = isContained spaces p.name := by
  unfold parameterEntry at withheld
  split at withheld
  · rw [← VariableEntry.withheld.inj withheld]
    exact password_told entries p.name
  · split at withheld
    · rw [← VariableEntry.withheld.inj withheld]
      exact default_told entries p.name
    · split at withheld <;> cases withheld

variable {v : VariableSpec} (key : KeyPolicy.HasKeyChars v.key)

include key

theorem creation_told : onlyRemarks spaces (entryLine entries (creationRemark v)) = isContained spaces v.scope := by
  have placeholder : OneLine v.placeholder := by
    unfold VariableSpec.placeholder
    cases v.valueKind <;> decide
  have flags : OneLine v.flags := by
    unfold VariableSpec.flags OneLine
    cases v.valueKind <;> cases v.masked <;> cases v.protected_ <;> decide
  exact entry_told entries (.append (.append (.append (.append (.append key.line (by decide)) placeholder) (by decide)) flags)
    (by decide)) (by decide) rfl rfl (by decide) rfl (by decide)

theorem unclear_told : onlyRemarks spaces (entryLine entries (unclearRemark v)) = isContained spaces v.sourceId := by
  have same : unclearRemark v = (Job.reviewMarker ++ [' '] ++ v.key ++ ": type could not be inferred for '".toList) ++
      v.sourceId ++ ([] ++ "'; confirm masking and variable type.".toList) := by
    unfold unclearRemark Job.review
    simp only [List.append_assoc]
    rfl
  rw [same]
  exact entry_told entries (.append (.append (by decide) key.line) (.literal rfl (by decide)))
    (.append (by decide) (.literal rfl (by decide))) (literal_head rfl) rfl (by decide) (literal_last rfl rfl) (by decide)

end Entries

/-- A text shows a comment that tells a part of a script, and the comment holds comments only just when the part is
    contained. -/
structure Tells (text line part : Text) : Prop where
  shown : Shows text [line]
  kept : onlyRemarks spaces line = isContained spaces part

/-- The advisories of a configuration for what a script says and the verdicts on its capabilities. -/
def adviceOf (f : FeatureSet) (verdicts : List Verdict) (tier : ComplexityTier) (limits : Limits) : List Text :=
  let c := JobContext.of f verdicts tier limits.expiry
  advisories f verdicts ({} : ReviewPolicy).threshold ((Job.capabilityJobs c ({} : ReviewPolicy).threshold).map (·.1))

/-- The entries of the variables section. -/
def entriesFor (f : FeatureSet) (verdicts : List Verdict) (specs : List VariableSpec) : List VariableEntry :=
  variableEntries f specs (BuildTool.of verdicts) ({} : ReviewPolicy).generic

theorem advice_shown {f : FeatureSet} {verdicts : List Verdict} {specs : List VariableSpec} {tier : ComplexityTier}
    {stamp text : Text} {limits : Limits} (made : synthesize {} f verdicts specs tier stamp = .ok text)
    (written : Limits.of f = .ok limits) (filled : adviceOf f verdicts tier limits ≠ []) :
    Shows text (adviceOf f verdicts tier limits) := by
  obtain ⟨other, same, rfl⟩ := synthesize_document made
  obtain rfl := Except.ok.inj (written.symm.trans same)
  have among : adviceOf f verdicts tier limits ∈
      sections {} (JobContext.of f verdicts tier limits.expiry) specs tier limits stamp := List.mem_of_getElem? (i := 6) rfl
  exact section_shown _ _ _ among filled

/-- What a script says stays in the comments that tell it when its names and conditions are contained, and gets out
    of them when they are not. -/
theorem synthesize_contained {f : FeatureSet} {script stamp text : Text} {credentials : List CredentialHit}
    {options : PlanOptions} {tier : ComplexityTier} {verdicts : List Verdict} {specs : List VariableSpec}
    (judged : verdicts = Capability.resolve {} (Capability.scan {} script))
    (planned : specs = Credential.resolve {} options credentials)
    (made : synthesize {} f verdicts specs tier stamp = .ok text) :
    (∃ limits, Limits.of f = .ok limits ∧ (adviceOf f verdicts tier limits ≠ [] →
      Shows text (adviceOf f verdicts tier limits) ∧
      (onlyRemarks nothing (Text.join "\n" (adviceOf f verdicts tier limits)) = true ↔
        (∀ l ∈ f.libraries, isContained nothing l = true) ∧ ∀ g ∈ f.guards, Job.isDeployStage g.stage = false →
          isContained nothing g.stage = true ∧ isContained nothing (conditionText g) = true))) ∧
    (∀ p ∈ (ownParameters f).map (·.2), ∀ remark, parameterEntry (secretNames specs) p = .withheld remark →
      Tells text (entryLine (entriesFor f verdicts specs) remark) p.name) ∧
    ∀ v ∈ specs, Tells text (entryLine (entriesFor f verdicts specs) (creationRemark v)) v.scope ∧
      (v.classifier = ({} : ReviewPolicy).generic →
        Tells text (entryLine (entriesFor f verdicts specs) (unclearRemark v)) v.sourceId) := by
  have advised (limits : Limits) (written : Limits.of f = .ok limits) (filled : adviceOf f verdicts tier limits ≠ []) :=
    advice_shown made written filled
  obtain ⟨limits, written, rfl⟩ := synthesize_document made
  have lines : ∀ v ∈ verdicts, Capability.Verdict.OnLines v := by
    rw [judged]
    exact Capability.resolve_lines (Capability.scan_plain script)
  have keys : ∀ v ∈ specs, KeyPolicy.HasKeyChars v.key := by
    rw [planned]
    exact Credential.resolve_key_chars options credentials
  have shown {remark : Text} (member : .withheld remark ∈ entriesFor f verdicts specs) :
      Shows (document (blocks {} (JobContext.of f verdicts tier limits.expiry) specs tier limits stamp))
        [entryLine (entriesFor f verdicts specs) remark] := by
    have line := entry_in_section _ member
    have among : variableSection (entriesFor f verdicts specs) ∈
        sections {} (JobContext.of f verdicts tier limits.expiry) specs tier limits stamp := List.mem_of_getElem? (i := 4) rfl
    exact (section_shown _ limits _ among (List.ne_nil_of_mem line)).line line
  have secret {v : VariableSpec} (member : v ∈ specs) {e : VariableEntry}
      (entry : e ∈ secretEntries ({} : ReviewPolicy).generic v) : e ∈ entriesFor f verdicts specs := by
    refine List.mem_append_right _ ?_
    rw [if_neg (by simpa using List.ne_nil_of_mem member)]
    exact List.mem_cons_of_mem _ (List.mem_flatMap.2 ⟨v, member, entry⟩)
  refine ⟨⟨limits, written, fun filled => ⟨advised limits written filled, advisories_remarks_iff _ _ lines filled⟩⟩,
    fun p member remark withheld => ?_, fun v member => ⟨?_, fun unclear => ?_⟩⟩
  · refine ⟨shown ?_, parameter_told _ withheld⟩
    obtain ⟨pair, own, rfl⟩ := List.mem_map.1 member
    exact List.mem_append_left _ (List.mem_append_left _ (List.mem_append_left _ (List.mem_map.2 ⟨pair, own, withheld⟩)))
  · exact ⟨shown (secret member (List.mem_append_right _ (List.mem_singleton.2 rfl))), creation_told _ (keys v member)⟩
  · refine ⟨shown (secret member (List.mem_append_left _ ?_)), unclear_told _ (keys v member)⟩
    rw [if_pos (by simpa using unclear)]
    exact List.mem_singleton.2 rfl

theorem any_ok {ε α : Type} {r : Except ε α} {p : α → Bool} (held : r.toOption.any p = true) : ∃ a, r = .ok a ∧ p a = true := by
  cases r with
  | error fault => cases held
  | ok a => exact ⟨a, rfl, held⟩

-- A script that loads a library and takes a password, and one whose library has a name of three lines.
def namedFeatures : FeatureSet := { libraries := ["tools"], parameters := [{ name := "k", kind := .password }] }
def longNameScript : Text := "library 'a\nadded: \x7b\x7d\n#'"

def usesOf (script : Text) : List Verdict := Capability.resolve {} (Capability.scan {} script)
def secretsOf (script : Text) : List VariableSpec := Credential.resolve {} {} (CredentialReference.scan script)

theorem named_features_contained : ∃ text, synthesize {} namedFeatures (usesOf "sshagent(['k'])")
      (secretsOf "credentials('id')") .simple [] = .ok text ∧
    (∃ limits, adviceOf namedFeatures (usesOf "sshagent(['k'])") .simple limits ≠ [] ∧
      onlyRemarks nothing (Text.join "\n" (adviceOf namedFeatures (usesOf "sshagent(['k'])") .simple limits)) = true) ∧
    ∃ line, Tells text line "k" ∧ onlyRemarks spaces line = true := by
  have done : (synthesize {} namedFeatures (usesOf "sshagent(['k'])") (secretsOf "credentials('id')") .simple
      []).toOption.isSome = true := by decide +kernel
  cases made : synthesize {} namedFeatures (usesOf "sshagent(['k'])") (secretsOf "credentials('id')") .simple [] with
  | error fault =>
    rw [made] at done
    cases done
  | ok text =>
    obtain ⟨⟨limits, -, advice⟩, parameters, -⟩ := synthesize_contained rfl rfl made
    have filled : adviceOf namedFeatures (usesOf "sshagent(['k'])") .simple limits ≠ [] :=
      List.append_ne_nil_of_left_ne_nil (List.append_ne_nil_of_left_ne_nil (List.cons_ne_nil _ _) _) _
    have told := parameters { name := "k", kind := .password } (by decide) (passwordRemark "k") rfl
    refine ⟨text, rfl, ⟨limits, filled, ((advice filled).2).2 ⟨by decide, fun g none => nomatch none⟩⟩, _, told, ?_⟩
    rw [told.kept]
    decide

/-- The second line of the library's name is an entry of the configuration. -/
theorem broken_library_escapes : ∃ e text limits, Extraction.of [] longNameScript = .ok e ∧
    synthesize {} e.features (usesOf longNameScript) (secretsOf longNameScript) .simple [] = .ok text ∧
    Limits.of e.features = .ok limits ∧ Shows text (adviceOf e.features (usesOf longNameScript) .simple limits) ∧
    onlyRemarks nothing (Text.join "\n" (adviceOf e.features (usesOf longNameScript) .simple limits)) = false ∧
    "added: \x7b\x7d".toList ∈ readerLines text := by
  have done : (Extraction.of [] longNameScript).toOption.any (fun e => (Limits.of e.features).toOption.any fun limits =>
      (synthesize {} e.features (usesOf longNameScript) (secretsOf longNameScript) .simple []).toOption.any fun text =>
        !(adviceOf e.features (usesOf longNameScript) .simple limits).isEmpty &&
        !onlyRemarks nothing (Text.join "\n" (adviceOf e.features (usesOf longNameScript) .simple limits)) &&
        (readerLines text).contains "added: \x7b\x7d".toList) = true := by decide +kernel
  obtain ⟨e, extracted, done⟩ := any_ok done
  obtain ⟨limits, written, done⟩ := any_ok done
  obtain ⟨text, made, done⟩ := any_ok done
  simp only [Bool.and_eq_true, Bool.not_eq_true', List.contains_iff_mem] at done
  refine ⟨e, text, limits, extracted, made, written, advice_shown made written ?_, done.1.2, done.2⟩
  simpa using done.1.1

end Configuration
end PipelineMigration
