import PipelineMigration.Capability.Readiness
set_option autoImplicit false

/- Notes change nothing but the checklist. Whatever is counted of verdicts is counted without their
   notes; in the checklist a note is one more line, under the item of its own verdict. -/
namespace PipelineMigration.Capability

section Count

variable (verdicts : List Verdict)

-- Verdicts are counted by their tiers, and nothing else of them counts.
theorem summarize_map {f : Verdict → Verdict} (kept : ∀ v, (f v).tier = v.tier) :
    summarize (verdicts.map f) = summarize verdicts := by
  have counted (tier : SupportTier) : countTier tier (verdicts.map f) = countTier tier verdicts := by
    simp only [countTier, List.countP_map, Function.comp_def, kept]
  have scored : score (verdicts.map f) = score verdicts := by
    simp only [score, List.isEmpty_map, List.foldr_map, List.length_map, kept]
  simp only [summarize, counted, scored, List.length_map]

theorem summarize_unnoted : summarize (verdicts.map Verdict.withoutNote) = summarize verdicts :=
  summarize_map verdicts fun _ => rfl

theorem score_unnoted : score (verdicts.map Verdict.withoutNote) = score verdicts :=
  congrArg Readiness.score (summarize_unnoted verdicts)

end Count

/-- The line that a note puts under the item of its verdict. -/
def noteLines (v : Verdict) : List Text :=
  ((said v.enrichmentNote).map fun note => "  - Analysis: ".toList ++ note).toList

/-- Lines, and the same lines with the notes of verdicts put in, of each listed verdict once: its note
    stands within the item of the verdict, behind the first line, and nothing else is new. -/
inductive Annotated : List Verdict → List Text → List Text → Prop where
  | kept (lines : List Text) : Annotated [] lines lines
  | item (v : Verdict) (front back : List Text) (whole : checklistItem v.withoutNote = front ++ back)
      (under : front ≠ []) : Annotated [v] (front ++ back) (front ++ noteLines v ++ back)
  | append {verdicts others : List Verdict} {plain noted plainRest notedRest : List Text}
      (first : Annotated verdicts plain noted) (second : Annotated others plainRest notedRest) :
      Annotated (verdicts ++ others) (plain ++ plainRest) (noted ++ notedRest)

theorem checklist_item_annotated (v : Verdict) :
    Annotated [v] (checklistItem v.withoutNote) (checklistItem v) := by
  let heading : Text := "- [ ] **" ++ (v.id ++ ((said v.equivalent).map (" -> ".toList ++ ·)).getD []) ++
    "** (line " ++ Text.ofInt v.firstLine ++ "): " ++ v.note
  let front := [heading] ++ detail "Include" ((said v.include_).map fun s => '\x60' :: s ++ ['\x60']) ++
    detail "Alternative" v.alternative
  have plain : checklistItem v.withoutNote = front ++ detail "Docs" v.documentation :=
    congrArg (· ++ detail "Docs" v.documentation) (List.append_nil front)
  have noted : checklistItem v = front ++ noteLines v ++ detail "Docs" v.documentation := rfl
  rw [noted, plain]
  exact .item v front _ plain (by simp [front])

theorem checklist_items_annotated (group : List Verdict) :
    Annotated group ((group.map Verdict.withoutNote).flatMap checklistItem) (group.flatMap checklistItem) := by
  induction group with
  | nil => exact .kept []
  | cons v rest ih => exact .append (checklist_item_annotated v) ih

def ofTier (verdicts : List Verdict) (tier : SupportTier) : List Verdict := verdicts.filter fun v => v.tier == tier

theorem tier_section_annotated (verdicts : List Verdict) (tier : SupportTier) :
    Annotated (ofTier verdicts tier) (tierSection (verdicts.map Verdict.withoutNote) tier)
      (tierSection verdicts tier) := by
  have group : (verdicts.map Verdict.withoutNote).filter (fun v => v.tier == tier) =
      (ofTier verdicts tier).map Verdict.withoutNote := List.filter_map
  simp only [tierSection, group, List.isEmpty_map]
  rw [show verdicts.filter (fun v => v.tier == tier) = ofTier verdicts tier from rfl]
  cases ofTier verdicts tier with
  | nil => exact .kept []
  | cons v rest =>
    have items := checklist_items_annotated (v :: rest)
    have section_ := Annotated.append (.append (.kept ["## ".toList ++ tierHeading tier, []]) items) (.kept [[]])
    rwa [List.nil_append, List.append_nil] at section_

theorem tier_sections_annotated (verdicts : List Verdict) (tiers : List SupportTier) :
    Annotated (tiers.flatMap (ofTier verdicts)) (tiers.flatMap (tierSection (verdicts.map Verdict.withoutNote)))
      (tiers.flatMap (tierSection verdicts)) := by
  induction tiers with
  | nil => exact .kept []
  | cons tier rest ih => exact .append (tier_section_annotated verdicts tier) ih

theorem of_tier_cons (v : Verdict) (rest : List Verdict) (tier : SupportTier) :
    ofTier (v :: rest) tier = if v.tier = tier then v :: ofTier rest tier else ofTier rest tier := by
  by_cases same : v.tier = tier <;> simp [ofTier, same]

-- Every verdict is listed, under its tier.
theorem of_tiers_perm (verdicts : List Verdict) : (SupportTier.all.flatMap (ofTier verdicts)).Perm verdicts := by
  induction verdicts with
  | nil => rfl
  | cons v rest ih =>
    have listed : (SupportTier.all.flatMap (ofTier (v :: rest))).Perm (v :: SupportTier.all.flatMap (ofTier rest)) := by
      simp only [SupportTier.all, List.flatMap_cons, List.flatMap_nil, of_tier_cons]
      cases v.tier with
      | native => rfl
      | templated => exact List.perm_middle
      | limited => exact (List.perm_middle.append_left _).trans List.perm_middle
      | unsupported =>
        exact ((List.perm_middle.append_left _).append_left _).trans
          ((List.perm_middle.append_left _).trans List.perm_middle)
    exact listed.trans (ih.cons v)

-- The checklist with notes is the one without, and the note of each verdict within its item.
theorem checklist_annotated (verdicts : List Verdict) : ∃ (order : List Verdict) (plain noted : List Text),
    order.Perm verdicts ∧ Annotated order plain noted ∧
    checklist (verdicts.map Verdict.withoutNote) none = Text.join "\n" plain ++ "\n" ∧
    checklist verdicts none = Text.join "\n" noted ++ "\n" := by
  refine ⟨SupportTier.all.flatMap (ofTier verdicts), _, _, of_tiers_perm verdicts, ?_, rfl, rfl⟩
  have body := tier_sections_annotated verdicts SupportTier.all
  have whole := Annotated.append (.append (.kept (["# Migration Checklist".toList, []] ++ stampSection none ++
    summarySection (summarize verdicts))) body)
    (.kept (["## Migration notes".toList, []] ++ generalAdvice.map ("- ".toList ++ ·)))
  rw [List.nil_append, List.append_nil] at whole
  unfold checklistLines
  rw [summarize_unnoted]
  simpa only [List.append_assoc] using whole

end PipelineMigration.Capability
