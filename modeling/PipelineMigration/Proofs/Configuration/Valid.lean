import PipelineMigration.Proofs.Configuration.Reading
import PipelineMigration.Proofs.Job.Tidy
set_option autoImplicit false

/- When a configuration passes the checks. Its lines show one block; the block is read, and what is read passes,
   when the characters of the configuration are ones that a document may hold, no rule has a mark between documents
   after a line break, and no key is too long. -/
namespace PipelineMigration.Configuration

open Yaml

/-- A page is a section or a job: its lines and the block that they show. -/
abbrev Page := List Text × Block

theorem draws_nothing {b : Block} (drawn : Draws b 0 []) : b = .done := by
  cases b with
  | done => rfl
  | quiet n s rest => cases drawn.text
  | leaf k l rest => cases drawn.text
  | words k items rest => cases drawn.text
  | records k items rest => cases drawn.text
  | nested k inner rest => cases drawn.text

-- Pages without lines hold nothing.
theorem filled_pages {α : Type} (f : Block → List α) (none : f .done = []) (pages : List Page)
    (each : ∀ p ∈ pages, Draws p.2 0 p.1) :
    ((pages.filter fun p => !p.1.isEmpty).map (·.2)).flatMap f = (pages.map (·.2)).flatMap f := by
  induction pages with
  | nil => rfl
  | cons p rest ih =>
    obtain ⟨here, others⟩ := List.forall_mem_cons.1 each
    have later := ih others
    rw [List.filter_cons]
    split
    · rw [List.map_cons, List.flatMap_cons, later]
      rfl
    · rename_i empty
      have nothing : p.1 = [] := by simpa using empty
      rw [nothing] at here
      rw [later, List.map_cons, List.flatMap_cons, draws_nothing here, none]
      rfl

section Pages

variable (policy : ReviewPolicy) (c : JobContext) (specs : List VariableSpec) (tier : ComplexityTier)
  (limits : Limits) (stamp : Text)

/-- The entries of the variables section. -/
def entriesOf : List VariableEntry := variableEntries c.features specs c.tool policy.generic

def sectionPages : List Page :=
  let first := heading c.features.style tier (Capability.score c.verdicts) stamp
  let last := advisories c.features c.verdicts policy.threshold ((Job.capabilityJobs c policy.threshold).map (·.1))
  [(first, quietBlock 0 first),
    (includeSection c.verdicts, includeBlock (templates c.verdicts)),
    (workflowSection c.features.parameters, workflowBlock c.features.parameters),
    (stageSection c.stages, stageBlock c.stages),
    (variableSection (entriesOf policy c specs), variableBlock (entriesOf policy c specs)),
    (defaultSection c.tool limits c.features.retention, defaultBlock c.tool limits c.features.retention),
    (last, quietBlock 0 last)]

def jobPages (art : Job → Block) : List Page :=
  (Job.jobs c policy.threshold).map fun j => (j.layout, j.block (art j))

def pages (art : Job → Block) : List Page :=
  (sectionPages policy c specs tier limits stamp).filter (fun p => !p.1.isEmpty) ++ jobPages policy c art

theorem pages_lines (art : Job → Block) :
    (pages policy c specs tier limits stamp art).map (·.1) = blocks policy c specs tier limits stamp := by
  unfold pages blocks
  rw [List.map_append]
  congr 1
  · have lines : sections policy c specs tier limits stamp =
        (sectionPages policy c specs tier limits stamp).map (·.1) := rfl
    rw [lines, List.filter_map]
    rfl
  · rw [jobPages, List.map_map]
    rfl

/-- What sections are made of: known templates, numbers as limits, a tool and stages that there are. -/
structure Known (c : JobContext) (limits : Limits) : Prop where
  sound : c.Sound
  templates : ∀ t ∈ templates c.verdicts, isTemplate t = true
  limits : limits.Plain

theorem tools_plain : ∀ tool ∈ BuildTool.all, isLeafWord tool.image = true ∧
    ∀ p ∈ tool.cachePaths, isLeafWord p = true := by decide

theorem stages_filled : ∀ packaged, ∀ stages ∈ Job.stageLists packaged, stages ≠ [] := by decide

variable {c limits}

theorem sections_drawn (known : Known c limits) :
    ∀ p ∈ sectionPages policy c specs tier limits stamp, Draws p.2 0 p.1 := by
  have stages : ∀ s ∈ c.stages, isLeafWord s = true := fun s member =>
    (Job.stage_words_plain s (Job.stage_lists_known _ _ known.sound.stages s member)).1
  obtain ⟨image, paths⟩ := tools_plain _ known.sound.tool
  simp only [sectionPages, List.forall_mem_cons]
  exact ⟨draws_comments _, draws_include _ known.templates, draws_workflow _,
    draws_stages _ (stages_filled _ _ known.sound.stages) stages, draws_variables _,
    draws_default _ _ _ image paths known.limits, draws_comments _, fun _ none => nomatch none⟩

variable {art : Job → Block} (tidy : ∀ j ∈ Job.jobs c policy.threshold, j.Tidy (art j))

include tidy

theorem pages_drawn (known : Known c limits) :
    ∀ p ∈ pages policy c specs tier limits stamp art, Draws p.2 0 p.1 ∧ p.1 ≠ [] := by
  intro p member
  rcases List.mem_append.1 member with section_ | job
  · obtain ⟨among, filled⟩ := List.mem_filter.1 section_
    exact ⟨sections_drawn policy specs tier stamp known p among, by simpa using filled⟩
  · obtain ⟨j, among, rfl⟩ := List.mem_map.1 job
    have drawn := Job.draws_job (tidy j among)
    have filled := Job.block_filled j (art j)
    refine ⟨drawn, fun empty => ?_⟩
    have nothing : j.layout = [] := empty
    rw [nothing] at drawn
    rw [draws_nothing drawn] at filled
    cases filled

end Pages

section Whole

variable (policy : ReviewPolicy) (c : JobContext) (specs : List VariableSpec) (tier : ComplexityTier)
  (limits : Limits) (stamp : Text) (art : Job → Block)

/-- The block that the whole configuration shows. -/
def whole : Block := joined ((pages policy c specs tier limits stamp art).map (·.2))

variable {c limits art} (known : Known c limits) (tidy : ∀ j ∈ Job.jobs c policy.threshold, j.Tidy (art j))

section Parts

include known

-- What the pages of a configuration hold, in order.
theorem pages_parts {α : Type} (f : Block → List α) (none : f .done = []) :
    ((pages policy c specs tier limits stamp art).map (·.2)).flatMap f =
      ((sectionPages policy c specs tier limits stamp).map (·.2)).flatMap f ++
        (Job.jobs c policy.threshold).flatMap fun j => f (j.block (art j)) := by
  unfold pages jobPages
  rw [List.map_append, List.flatMap_append, filled_pages f none _ (sections_drawn policy specs tier stamp known),
    List.map_map]
  congr 1
  rw [List.flatMap_map]
  rfl

end Parts

include tidy

-- The comments of a configuration begin as comments do.
theorem whole_marked : ∀ r ∈ (whole policy c specs tier limits stamp art).remarks, r.head?.all (· == '#') = true := by
  have first : Marked (quietBlock 0 (heading c.features.style tier (Capability.score c.verdicts) stamp)) := by
    refine marked_quiet 0 _ fun l member => ?_
    simp only [heading, List.mem_cons, List.not_mem_nil, or_false] at member
    rcases member with rfl | rfl | rfl | rfl | rfl | rfl <;> rfl
  have last : Marked (quietBlock 0 (advisories c.features c.verdicts policy.threshold
      ((Job.capabilityJobs c policy.threshold).map (·.1)))) := by
    refine marked_quiet 0 _ ?_
    unfold advisories
    rw [List.forall_mem_append, List.forall_mem_append, List.forall_mem_map, List.forall_mem_flatMap,
      List.forall_mem_map]
    refine ⟨⟨fun _ _ => rfl, fun v _ => ?_⟩, fun _ _ => rfl⟩
    rw [List.forall_mem_map]
    exact fun _ _ => rfl
  have sections : ∀ p ∈ sectionPages policy c specs tier limits stamp, Marked p.2 := by
    simp only [sectionPages, List.forall_mem_cons]
    exact ⟨first, marked_silent (include_silent _).1, (fun r member => by
      rw [(workflow_fixed c.features.parameters).1] at member
      cases member), marked_silent (stage_fixed _).1, variable_marked _, default_marked _ _ _, last,
      fun _ none => nomatch none⟩
  intro r member
  rcases joined_remarks _ r member with rfl | ⟨b, among, said⟩
  · rfl
  · have marked : r.head? = some '#' := by
      obtain ⟨p, page, rfl⟩ := List.mem_map.1 among
      rcases List.mem_append.1 page with own | job
      · exact sections p (List.mem_filter.1 own).1 r said
      · obtain ⟨j, there, rfl⟩ := List.mem_map.1 job
        rw [Job.block_remarks (tidy j there)] at said
        obtain ⟨comment, -, rfl⟩ := List.mem_map.1 said
        rfl
    rw [marked]
    rfl

include known

theorem whole_drawn : Draws (whole policy c specs tier limits stamp art) 0
    (joinedLines (blocks policy c specs tier limits stamp)) := by
  have drawn := draws_joined (pages policy c specs tier limits stamp art) fun p member =>
    (pages_drawn policy specs tier stamp tidy known p member).1
  rwa [pages_lines] at drawn

theorem whole_text : (whole policy c specs tier limits stamp art).text =
    document (blocks policy c specs tier limits stamp) := by
  have some : blocks policy c specs tier limits stamp ≠ [] := List.cons_ne_nil _ _
  have filled : ∀ lines ∈ blocks policy c specs tier limits stamp, lines ≠ [] := by
    rw [← pages_lines policy c specs tier limits stamp art, List.forall_mem_map]
    exact fun p member => (pages_drawn policy specs tier stamp tidy known p member).2
  rw [block_text (whole_drawn policy specs tier stamp known tidy), ← join_pages _ some filled]
  rfl

theorem whole_unmarked : (∀ s ∈ (whole policy c specs tier limits stamp art).singles, meetsMark s = false) ↔
    ∀ j ∈ Job.jobs c policy.threshold, ∀ r ∈ j.rules, meetsMark r.condition = false := by
  have sections : ∀ s ∈ ((sectionPages policy c specs tier limits stamp).map (·.2)).flatMap Block.singles,
      meetsMark s = false := by
    rw [List.forall_mem_flatMap, List.forall_mem_map]
    simp only [sectionPages, List.forall_mem_cons, quiet_singles, (include_silent _).1.2, (stage_fixed _).1.2,
      variable_singles, (default_fixed _ _ _).1]
    have nothing : ∀ s ∈ ([] : List Text), meetsMark s = false := fun _ none => nomatch none
    exact ⟨nothing, nothing, (workflow_fixed _).2.1, nothing, nothing, nothing, nothing, fun _ none => nomatch none⟩
  unfold whole
  rw [joined_singles, pages_parts policy specs tier stamp known Block.singles rfl, List.forall_mem_append]
  refine (and_iff_right sections).trans ?_
  rw [List.forall_mem_flatMap]
  refine forall₂_congr fun j member => ?_
  rw [Job.block_singles (tidy j member), List.forall_mem_map]

theorem whole_short : (whole policy c specs tier limits stamp art).Short ↔
    (∀ k ∈ (entriesOf policy c specs).filterMap (·.key?), (Yaml.key k).length ≤ 1024) ∧
      ∀ j ∈ Job.jobs c policy.threshold,
        (quote j.name).length ≤ 1024 ∧ ∀ n ∈ j.variableNames, n.length ≤ 1024 := by
  have sections : (∀ p ∈ sectionPages policy c specs tier limits stamp, p.2.Short) ↔
      ∀ k ∈ (entriesOf policy c specs).filterMap (·.key?), (Yaml.key k).length ≤ 1024 := by
    have quiet (lines : List Text) : (quietBlock 0 lines).Short := by
      unfold Block.Short
      rw [quiet_keys]
      exact fun _ none => nomatch none
    simp only [sectionPages, List.forall_mem_cons, quiet, (include_silent _).2, (workflow_fixed _).2.2,
      (stage_fixed _).2, (default_fixed _ _ _).2, variable_short, true_and]
    exact and_iff_left fun _ none => nomatch none
  unfold whole Block.Short
  rw [joined_keys, pages_parts policy specs tier stamp known Block.keys rfl, List.forall_mem_append,
    List.forall_mem_flatMap, List.forall_mem_flatMap, List.forall_mem_map]
  exact and_congr sections (forall₂_congr fun j member => Job.block_short (tidy j member))

end Whole

/- What is read from a configuration passes the checks: its sections have reserved names and declare the stages, and
   its jobs have names of their own. -/
theorem plain_value_text {s : Text} (look : Tag.ofPlain s = .text) : plainValue s = .text s := by
  unfold plainValue
  rw [look]
  rfl

/-- The names of sections, in their order. -/
def sectionNames : List String := ["include", "workflow", "stages", "variables", "default"]

theorem section_names_text : ∀ s ∈ sectionNames, (bareKey s).value = .text s.toList := by
  have looks : ∀ s ∈ sectionNames, Tag.ofPlain s.toList = .text := by decide
  exact fun s member => plain_value_text (looks s member)

theorem section_names_reserved : ∀ s ∈ sectionNames, s.toList ∈ Lint.reserved := by decide

section Heads

theorem include_heads (refs : List Text) : (includeBlock refs).heads.Sublist (["include"].map bareKey) := by
  unfold includeBlock
  split
  · exact List.nil_sublist _
  · exact List.Sublist.refl _

theorem workflow_heads (parameters : List Parameter) :
    (workflowBlock parameters).heads.Sublist (["workflow"].map bareKey) := by
  unfold workflowBlock
  split
  · exact List.nil_sublist _
  · exact List.Sublist.refl _

theorem variable_heads (entries : List VariableEntry) :
    (variableBlock entries).heads.Sublist (["variables"].map bareKey) := by
  unfold variableBlock
  split
  · exact List.nil_sublist _
  · split
    · rw [heads_append, quiet_heads]
      exact List.Sublist.refl _
    · exact List.Sublist.refl _

end Heads

section Sections

variable (policy : ReviewPolicy) (c : JobContext) (specs : List VariableSpec) (tier : ComplexityTier)
  (limits : Limits) (stamp : Text)

theorem section_heads : (((sectionPages policy c specs tier limits stamp).map (·.2)).flatMap Block.heads).Sublist
    (sectionNames.map bareKey) := by
  simp only [sectionPages, List.map_cons, List.map_nil, List.flatMap_cons, List.flatMap_nil, quiet_heads,
    List.nil_append, List.append_nil]
  exact (include_heads _).append ((workflow_heads _).append ((List.Sublist.refl [bareKey "stages"]).append
    ((variable_heads _).append (List.Sublist.refl [bareKey "default"]))))

/-- The entries of the sections. -/
noncomputable def sectionEntries : Entries :=
  ((sectionPages policy c specs tier limits stamp).map (·.2)).flatMap Block.entries

theorem section_keys : (sectionEntries policy c specs tier limits stamp).map (·.1) =
    (((sectionPages policy c specs tier limits stamp).map (·.2)).flatMap Block.heads).map Key.value := by
  unfold sectionEntries
  rw [List.map_flatMap, List.map_flatMap]
  exact List.flatMap_congr fun b _ => entries_heads b

theorem section_key_named (v : Value) (key : v ∈ (sectionEntries policy c specs tier limits stamp).map (·.1)) :
    ∃ s ∈ sectionNames, v = .text s.toList := by
  rw [section_keys] at key
  obtain ⟨k, head, rfl⟩ := List.mem_map.1 key
  obtain ⟨s, member, rfl⟩ := List.mem_map.1 ((section_heads policy c specs tier limits stamp).subset head)
  exact ⟨s, member, section_names_text s member⟩

theorem sections_reserved : ∀ e ∈ sectionEntries policy c specs tier limits stamp, Lint.isReserved e.1 = true := by
  intro e member
  obtain ⟨s, known, same⟩ := section_key_named policy c specs tier limits stamp e.1 (List.mem_map_of_mem member)
  rw [same, Lint.isReserved, List.contains_iff_mem]
  exact section_names_reserved s known

theorem sections_apart : ((sectionEntries policy c specs tier limits stamp).map (·.1)).Pairwise Apart := by
  have distinct : ((sectionNames.map bareKey).map Key.value).Pairwise Apart := by decide
  rw [section_keys]
  exact distinct.sublist ((section_heads policy c specs tier limits stamp).map Key.value)

theorem stages_declared (plain : ∀ s ∈ c.stages, plainValue s = .text s) :
    Lint.get? "stages" (sectionEntries policy c specs tier limits stamp) = some (.list (c.stages.map .text)) := by
  have included := Lint.get_absent_block "stages" (includeBlock (templates c.verdicts)) (include_heads _) (by decide)
  have started := Lint.get_absent_block "stages" (workflowBlock c.features.parameters) (workflow_heads _) (by decide)
  have named : (bareKey "stages").value.same (.text "stages".toList) = true := by decide
  have own : Lint.get? "stages" (stageBlock c.stages).entries = some (.list (c.stages.map .text)) := by
    have values : (c.stages.map Written.plain).map Written.value = c.stages.map .text := by
      rw [List.map_map]
      exact List.map_congr_left plain
    simp only [Lint.get?, stageBlock, Block.entries, List.find?_cons, named, values]
    rfl
  unfold sectionEntries
  simp only [sectionPages, List.map_cons, List.map_nil, List.flatMap_cons, quiet_entries, List.nil_append,
    Lint.get_append, included, started, own, Option.none_or, Option.some_or]

end Sections

section Document

variable (policy : ReviewPolicy) {c : JobContext} (specs : List VariableSpec) (tier : ComplexityTier)
  {limits : Limits} (stamp : Text) {art : Job → Block} (known : Known c limits)

/-- The jobs with the bodies that are read for them. -/
noncomputable def readJobs (policy : ReviewPolicy) (c : JobContext) (art : Job → Block) : List (Job × Entries) :=
  (Job.jobs c policy.threshold).map fun j => (j, ofEntries (j.body (art j)).entries)

include known

theorem whole_entries : (whole policy c specs tier limits stamp art).entries =
    sectionEntries policy c specs tier limits stamp ++ Lint.jobEntries (readJobs policy c art) := by
  unfold whole
  rw [joined_entries, pages_parts policy specs tier stamp known Block.entries rfl, sectionEntries, Lint.jobEntries,
    readJobs, List.map_map]
  congr 1
  rw [List.map_eq_flatMap]
  exact List.flatMap_congr fun j _ => Job.block_entries j (art j)

variable (names : ((Job.jobs c policy.threshold).map (·.name)).Nodup)

include names

theorem whole_apart : ((whole policy c specs tier limits stamp art).entries.map (·.1)).Pairwise Apart := by
  have jobs : (Lint.jobEntries (readJobs policy c art)).map (·.1) =
      ((Job.jobs c policy.threshold).map (·.name)).map .text := by
    rw [Lint.jobEntries, readJobs, List.map_map, List.map_map, List.map_map]
    rfl
  rw [whole_entries policy specs tier stamp known, List.map_append, jobs, List.pairwise_append]
  refine ⟨sections_apart policy c specs tier limits stamp, ?_, fun v key w named => ?_⟩
  · exact List.pairwise_map.2 (names.imp texts_apart)
  · obtain ⟨s, member, rfl⟩ := section_key_named policy c specs tier limits stamp v key
    obtain ⟨n, among, rfl⟩ := List.mem_map.1 named
    obtain ⟨j, there, rfl⟩ := List.mem_map.1 among
    have free := Job.job_names_open c policy.threshold j there
    refine texts_apart fun same => ?_
    rw [Lint.isJobName, ← same, List.contains_iff_mem.2 (section_names_reserved s member)] at free
    cases free

-- The mapping that a configuration says has no fault.
theorem whole_errors : Lint.documentErrors (ofEntries (whole policy c specs tier limits stamp art).entries) = .ok [] := by
  have stages : ∀ s ∈ c.stages, plainValue s = .text s := fun s member =>
    plain_value_text (Job.stage_words_plain s (Job.stage_lists_known _ _ known.sound.stages s member)).2
  have placed := Job.jobs_placed c known.sound policy.threshold
  rw [of_entries_distinct _ (whole_apart policy specs tier stamp known names),
    whole_entries policy specs tier stamp known]
  refine Lint.document_errors_nil c.stages _ _ ?_ (stages_filled _ _ known.sound.stages)
    (sections_reserved policy c specs tier limits stamp) ?_ ?_ ?_ ?_
  · rw [Lint.get_append, stages_declared policy c specs tier limits stamp stages]
    rfl
  · rw [readJobs, List.forall_mem_map]
    exact Job.job_names_open c policy.threshold
  · rw [readJobs, List.forall_mem_map]
    intro j member
    exact Job.body_describes j (art j)
      (plain_value_text (Job.stage_words_plain _ (Job.placed_stage_known known.sound (placed j member))).2)
  · rw [readJobs, List.forall_mem_map]
    exact placed
  · rw [readJobs, List.map_map]
    exact List.mem_map_of_mem (List.mem_append_left _ List.mem_cons_self)

end Document

-- A block that says a mapping without fault is found valid when it can be read, and malformed when it cannot.
theorem check_block (b : Block) (fits : b.Fits) (sound : b.isSound = true) (filled : b.hasEntry = true)
    (quiet : ∀ r ∈ b.remarks, isRemark r = true) (markless : b.text.head? ≠ some '\ufeff')
    (passes : Lint.documentErrors (ofEntries b.entries) = .ok []) :
    ∃ report, Lint.check b.text = .ok report ∧ (report.valid = true ↔ b.Clean) := by
  unfold Lint.check
  by_cases clean : b.Clean
  · rw [read_clean b fits quiet markless sound filled clean]
    dsimp only
    rw [passes]
    exact ⟨_, rfl, iff_of_true rfl clean⟩
  · rw [read_unclean b fits quiet markless clean]
    exact ⟨_, rfl, iff_of_false Bool.false_ne_true clean⟩

section Whole

variable (policy : ReviewPolicy) {c : JobContext} (specs : List VariableSpec) (tier : ComplexityTier)
  {limits : Limits} (stamp : Text) (known : Known c limits)
  (names : ((Job.jobs c policy.threshold).map (·.name)).Nodup)

/-- The keys as they are written: of variables, of jobs, and of the variables of jobs. -/
def writtenKeys (policy : ReviewPolicy) (c : JobContext) (specs : List VariableSpec) : List Text :=
  ((entriesOf policy c specs).filterMap (·.key?)).map Yaml.key ++
    (Job.jobs c policy.threshold).flatMap fun j => quote j.name :: j.variableNames

theorem blocks_begin (c : JobContext) (limits : Limits) : ∃ rest, blocks policy c specs tier limits stamp =
    heading c.features.style tier (Capability.score c.verdicts) stamp :: rest := by
  unfold blocks sections
  rw [List.filter_cons_of_pos rfl]
  exact ⟨_, rfl⟩

theorem whole_filled (art : Job → Block) : (whole policy c specs tier limits stamp art).hasEntry = true := by
  have built : Job.buildJob c ∈ Job.jobs c policy.threshold := List.mem_append_left _ List.mem_cons_self
  rw [whole, joined_filled, List.any_eq_true]
  refine ⟨_, List.mem_map_of_mem (List.mem_append_right _ (List.mem_map_of_mem built)), ?_⟩
  exact Job.block_filled _ _

-- The text of a configuration begins with its heading.
theorem whole_markless {art : Job → Block} (drawn : Draws (whole policy c specs tier limits stamp art) 0
    (joinedLines (blocks policy c specs tier limits stamp))) :
    (whole policy c specs tier limits stamp art).text.head? ≠ some '\ufeff' := by
  rw [block_text drawn]
  obtain ⟨rest, same⟩ := blocks_begin policy specs tier stamp c limits
  obtain ⟨more, lines⟩ := joined_lines_begin "# GitLab CI/CD configuration converted from a Jenkins pipeline"
    ((heading c.features.style tier (Capability.score c.verdicts) stamp).drop 1) rest
  have begins : joinedLines (blocks policy c specs tier limits stamp) = _ :: more :=
    (congrArg joinedLines same).trans lines
  rw [begins]
  exact fun wrong => absurd (Option.some.inj wrong) (by decide)

include known names

-- When no comment holds a line break, a configuration can be checked, and it is valid when its characters are ones
-- that a document may hold, no rule has a mark between documents after a line break, and no key is longer than a
-- reader takes.
theorem document_checked (expiry : ∀ e ∈ c.expiry, PlainLeaf e)
    (unbroken : ∀ l ∈ (blocks policy c specs tier limits stamp).flatten, isCommentLine l = true →
      l.all (fun x => !isBreak x) = true) :
    ∃ report, Lint.check (document (blocks policy c specs tier limits stamp)) = .ok report ∧
      (report.valid = true ↔ (document (blocks policy c specs tier limits stamp)).all isAllowed = true ∧
        (∀ j ∈ Job.jobs c policy.threshold, ∀ r ∈ j.rules, meetsMark r.condition = false) ∧
          ∀ k ∈ writtenKeys policy c specs, k.length ≤ 1024) := by
  have : Nonempty Block := ⟨.done⟩
  choose! art tidy using Job.jobs_tidy known.sound expiry policy.threshold
  have drawn := whole_drawn policy specs tier stamp known tidy
  have text := whole_text policy specs tier stamp known tidy
  have quiet := drawn_quiet drawn (whole_marked policy specs tier stamp tidy) fun l member comment => by
    rcases joined_lines_mem _ l member with rfl | inside
    · rfl
    · exact unbroken l inside comment
  have filled := @whole_filled policy c specs tier limits stamp art
  have markless := whole_markless policy specs tier stamp drawn
  have errors := @whole_errors policy c specs tier limits stamp art known names
  obtain ⟨report, checked, valid⟩ := check_block _ drawn.fits drawn.sound filled quiet markless errors
  rw [← text]
  refine ⟨report, checked, ?_⟩
  rw [valid, clean_iff _ drawn.fits]
  refine and_congr_right fun _ => and_congr (whole_unmarked policy specs tier stamp known tidy) ?_
  refine (whole_short policy specs tier stamp known tidy).trans ?_
  rw [writtenKeys, List.forall_mem_append, List.forall_mem_map, List.forall_mem_flatMap]
  refine and_congr_right fun _ => forall₂_congr fun j _ => ?_
  rw [List.forall_mem_cons]

theorem document_valid_iff (expiry : ∀ e ∈ c.expiry, PlainLeaf e)
    (unbroken : ∀ l ∈ (blocks policy c specs tier limits stamp).flatten, isCommentLine l = true →
      l.all (fun x => !isBreak x) = true) (report : LintReport)
    (checked : Lint.check (document (blocks policy c specs tier limits stamp)) = .ok report) :
    report.valid = true ↔ (document (blocks policy c specs tier limits stamp)).all isAllowed = true ∧
      (∀ j ∈ Job.jobs c policy.threshold, ∀ r ∈ j.rules, meetsMark r.condition = false) ∧
        ∀ k ∈ writtenKeys policy c specs, k.length ≤ 1024 := by
  obtain ⟨own, found, valid⟩ := document_checked policy specs tier stamp known names expiry unbroken
  rw [checked] at found
  rw [Except.ok.inj found]
  exact valid

end Whole

end PipelineMigration.Configuration
