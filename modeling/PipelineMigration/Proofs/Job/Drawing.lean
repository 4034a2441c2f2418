import PipelineMigration.Job.Layout
import PipelineMigration.Proofs.Yaml.Heads
set_option autoImplicit false

/- The block that the lines of a job show. -/
namespace PipelineMigration.Job

open Yaml

/-- The texts of a job that are written as plain scalars, its stage and artifacts apart. -/
def settingWords (j : Job) : List Text :=
  j.image.toList.map (·.name) ++ (j.services ++ (j.trigger.toList ++ (j.environment.toList ++
    (j.resourceGroup.toList ++ (j.when_.toList ++ j.rules.flatMap (·.when_.toList))))))

def variableNames (j : Job) : List Text := j.assignments.map (·.1) ++ j.matrix.map (·.1)

/-- Lines inside a section of a job, two levels deep, and the block that they show. -/
structure Shown (lines : List Text) (b : Block) : Prop where
  drawn : Draws b 4 (lines.map ("    ".toList ++ ·))
  filled : b.hasEntry = !lines.isEmpty
  silent : b.Silent
  short : b.Short

/-- A job whose plain texts stand for themselves; `art` is what its artifact lines show. -/
structure Tidy (j : Job) (art : Block) : Prop where
  stage : isLeafWord j.stage = true
  words : ∀ w ∈ j.settingWords, isLeafWord w = true
  names : ∀ n ∈ j.variableNames, Text.isIdentifier n = true
  artifacts : Shown j.artifacts art

def imageBlock : Option JobImage → Block
  | none => .done
  | some i =>
    if i.clearEntry then
      .nested (bareKey "image") (plainLeaf "name" i.name ++ .leaf (bareKey "entrypoint") (.list [[]]) .done) .done
    else plainLeaf "image" i.name

def wordsBlock (key : String) (items : List Written) : Block :=
  if items.isEmpty then .done else .words (bareKey key) items .done

def variableBlock (assignments : List (Text × Text)) : Block :=
  if assignments.isEmpty then .done
  else .nested (bareKey "variables")
    (fieldsBlock (assignments.map fun (key, value) => (⟨key, true⟩, .scalar (.double value)))) .done

def needsBlock : Option (List Text) → Block
  | none => .done
  | some names => .leaf (bareKey "needs") (.list names) .done

def axisField (axis : Text × List Text) : Key × Leaf := (⟨axis.1, true⟩, .list axis.2)

def matrixBlock : List (Text × List Text) → Block
  | [] => .done
  | first :: rest => .nested (bareKey "parallel")
      (.records (bareKey "matrix") [⟨axisField first, rest.map axisField⟩] .done) .done

/-- The commands of a job that runs none are a notice. -/
def scriptLines (j : Job) : List Text := if j.script.isEmpty then ["echo \"No steps\"".toList] else j.script

def actionBlock (j : Job) : Block :=
  match j.trigger with
  | some project => .nested (bareKey "trigger") (plainLeaf "project" project ++ plainLeaf "strategy" "depend") .done
  | none => wordsBlock "before_script" (j.beforeScript.map .double) ++
      .words (bareKey "script") (j.scriptLines.map .double) .done

def ruleRecord (r : JobRule) : Record :=
  ⟨(bareKey "if", .scalar (.single r.condition)), (r.when_.map fun w => (bareKey "when", .scalar (.plain w))).toList⟩

def settingBlock (key : String) : Option Text → Block
  | none => .done
  | some s => plainLeaf key s

def occasionBlock (j : Job) : Block :=
  if j.rules.isEmpty then settingBlock "when" j.when_
  else .records (bareKey "rules") (j.rules.map ruleRecord) .done

def artifactBlock (art : Block) : Block := if art.hasEntry then .nested (bareKey "artifacts") art .done else .done

/-- The settings of a job. -/
def body (j : Job) (art : Block) : Block :=
  plainLeaf "stage" j.stage ++ (imageBlock j.image ++ (wordsBlock "services" (j.services.map .plain) ++
    (variableBlock j.assignments ++ (needsBlock j.needs ++ (matrixBlock j.matrix ++ (actionBlock j ++
      (settingBlock "environment" j.environment ++ (settingBlock "resource_group" j.resourceGroup ++
        (artifactBlock art ++ (occasionBlock j ++
          if j.allowFailure then plainLeaf "allow_failure" "true" else .done))))))))))

/-- A job under its name, its comments before it. -/
def block (j : Job) (art : Block) : Block :=
  quietBlock 0 (j.comments.map ("# ".toList ++ ·)) ++ .nested ⟨j.name, false⟩ (j.body art) .done

section Pieces

theorem draws_image (image : Option JobImage) (plain : ∀ i ∈ image, isLeafWord i.name = true) :
    Draws (imageBlock image) 2 (imageLines image) := by
  cases image with
  | none => exact draws_done 2
  | some i =>
    have name := plain_leaf_word (plain i rfl)
    unfold imageBlock imageLines
    dsimp only
    split
    · exact draws_nested (bare_key_fits "image" (by decide)) rfl
        ((draws_plain_leaf "name" (by decide) name 4).append (draws_list (bare_key_fits "entrypoint" (by decide)) [[]]))
    · exact draws_plain_leaf "image" (by decide) name 2

theorem draws_word_section (key : String) (identifier : Text.isIdentifier key.toList = true) (items : List Written)
    (each : ∀ w ∈ items, w.Fits ∧ w.isSound = true) : Draws (wordsBlock key items) 2
      (itemSection ("  ".toList ++ (key.toList ++ [':'])) (fun w => "    ".toList ++ ("- ".toList ++ w))
        (items.map Written.text)) := by
  unfold wordsBlock itemSection
  cases items with
  | nil => exact draws_done 2
  | cons w rest =>
    rw [List.map_map]
    exact draws_words (bare_key_fits key identifier) (by simp) each

theorem draws_variables (assignments : List (Text × Text))
    (names : ∀ a ∈ assignments, Text.isIdentifier a.1 = true) :
    Draws (variableBlock assignments) 2 (variableLines assignments) := by
  unfold variableBlock variableLines
  cases assignments with
  | nil => exact draws_done 2
  | cons a rest =>
    have fields := draws_fields ((a :: rest).map fun (key, value) => (⟨key, true⟩, .scalar (.double value))) 4
      fun f member => by
        obtain ⟨b, among, rfl⟩ := List.mem_map.1 member
        exact ⟨fun _ => names b among, trivial, rfl⟩
    rw [List.map_map] at fields
    have drawn := draws_nested (bare_key_fits "variables" (by decide)) rfl fields
    refine ⟨drawn.text.trans ?_, drawn.fits, drawn.sound⟩
    congr 1
    refine List.map_congr_left fun b _ => ?_
    dsimp only
    rw [List.append_assoc, List.append_assoc]
    rfl

theorem draws_needs (needs : Option (List Text)) : Draws (needsBlock needs) 2
    (needs.map fun ns => "  needs: ".toList ++ quotedList ns).toList := by
  cases needs with
  | none => exact draws_done 2
  | some names => exact draws_list (bare_key_fits "needs" (by decide)) names

theorem matrix_line_eq (first : Bool) (axis : Text × List Text) : matrixLine first axis =
    (if first then "      - ".toList else "        ".toList) ++ fieldText (axisField axis) := by
  rw [matrixLine, List.append_assoc, List.append_assoc]
  rfl

theorem draws_matrix (axes : List (Text × List Text)) (names : ∀ a ∈ axes, Text.isIdentifier a.1 = true) :
    Draws (matrixBlock axes) 2 (matrixLines axes) := by
  cases axes with
  | nil => exact draws_done 2
  | cons first rest =>
    have fits (axis : Text × List Text) (among : axis ∈ first :: rest) :
        (axisField axis).1.Fits ∧ (axisField axis).2.Fits ∧ (axisField axis).2.isSound = true :=
      ⟨fun _ => names axis among, trivial, rfl⟩
    have filled : [(⟨axisField first, rest.map axisField⟩ : Record)] ≠ [] := List.cons_ne_nil _ _
    have records := @draws_records 4 _ (bare_key_fits "matrix" (by decide)) _ filled (by
      intro r member f field
      rw [List.mem_singleton.1 member] at field
      rcases List.mem_cons.1 field with rfl | later
      · exact fits first List.mem_cons_self
      · obtain ⟨axis, among, rfl⟩ := List.mem_map.1 later
        exact fits axis (List.mem_cons_of_mem _ among))
    have drawn := @draws_nested 2 _ (bare_key_fits "parallel" (by decide)) _ _ rfl records
    have lines : recordTexts 6 ⟨axisField first, rest.map axisField⟩ =
        matrixLine true first :: rest.map (matrixLine false) := by
      rw [recordTexts, List.map_map, matrix_line_eq]
      refine congrArg _ (List.map_congr_left fun axis _ => ?_)
      rw [matrix_line_eq]
      rfl
    rw [List.flatMap_singleton, lines] at drawn
    exact drawn

theorem draws_commands (key : String) (identifier : Text.isIdentifier key.toList = true) (commands : List Text) :
    Draws (wordsBlock key (commands.map .double)) 2
      (itemSection ("  ".toList ++ (key.toList ++ [':'])) commandLine commands) := by
  have drawn := draws_word_section key identifier (commands.map .double) fun w member => by
    obtain ⟨s, -, rfl⟩ := List.mem_map.1 member
    exact ⟨trivial, rfl⟩
  refine ⟨drawn.text.trans ?_, drawn.fits, drawn.sound⟩
  unfold itemSection
  rw [List.map_map, List.map_map, List.isEmpty_map]
  rfl

theorem script_lines_ne_nil (j : Job) : j.scriptLines ≠ [] := by
  unfold scriptLines
  cases j.script with
  | nil => exact List.cons_ne_nil _ _
  | cons c rest => exact List.cons_ne_nil c rest

theorem draws_action (j : Job) (plain : ∀ t ∈ j.trigger, isLeafWord t = true) : Draws (actionBlock j) 2 (actionLines j) := by
  unfold actionBlock actionLines
  cases trigger : j.trigger with
  | some project =>
    exact draws_nested (bare_key_fits "trigger" (by decide)) rfl ((draws_plain_leaf "project" (by decide)
      (plain_leaf_word (plain project trigger)) 4).append (draws_plain_leaf "strategy" (by decide) (plain_leaf_word (by decide)) 4))
  | none =>
    have commands := script_lines_ne_nil j
    have filled : j.scriptLines.map Written.double ≠ [] := by simpa using commands
    have script := @draws_words 2 _ (bare_key_fits "script" (by decide)) _ filled fun w member => by
      obtain ⟨s, -, rfl⟩ := List.mem_map.1 member
      exact ⟨trivial, rfl⟩
    have drawn := (draws_commands "before_script" (by decide) j.beforeScript).append script
    refine ⟨drawn.text.trans ?_, drawn.fits, drawn.sound⟩
    rw [List.map_map]
    rfl

theorem draws_setting (key : String) (identifier : Text.isIdentifier key.toList = true) (value : Option Text)
    (plain : ∀ t ∈ value, isLeafWord t = true) : Draws (settingBlock key value) 2 (settingLine key value) := by
  cases value with
  | none => exact draws_done 2
  | some s =>
    have drawn := draws_plain_leaf key identifier (plain_leaf_word (plain s rfl)) 2
    refine ⟨drawn.text.trans ?_, drawn.fits, drawn.sound⟩
    rw [settingLine, Option.map_some, Option.toList_some, List.append_assoc, List.append_assoc]
    rfl

theorem draws_occasion (j : Job) (plain : ∀ t ∈ j.when_, isLeafWord t = true)
    (rulePlain : ∀ r ∈ j.rules, ∀ t ∈ r.when_, isLeafWord t = true) : Draws (occasionBlock j) 2 (occasionLines j) := by
  unfold occasionBlock occasionLines
  cases rules : j.rules with
  | nil =>
    have drawn := draws_setting "when" (by decide) j.when_ plain
    exact ⟨drawn.text, drawn.fits, drawn.sound⟩
  | cons first rest =>
    rw [rules] at rulePlain
    have filled : (first :: rest).map ruleRecord ≠ [] := by simp
    have drawn := @draws_records 2 _ (bare_key_fits "rules" (by decide)) _ filled (by
      intro r member f field
      obtain ⟨rule, among, rfl⟩ := List.mem_map.1 member
      rcases List.mem_cons.1 field with rfl | later
      · exact ⟨bare_key_fits "if" (by decide), trivial, rfl⟩
      · obtain ⟨w, said, rfl⟩ : ∃ w ∈ rule.when_, f = (bareKey "when", .scalar (.plain w)) := by
          cases occasion : rule.when_ with
          | none => simp [ruleRecord, occasion] at later
          | some w => exact ⟨w, rfl, by simpa [ruleRecord, occasion] using later⟩
        have word := plain_leaf_word (rulePlain rule among w said)
        exact ⟨bare_key_fits "when" (by decide), word.fits, word.sound⟩)
    have lines (rule : JobRule) : recordTexts 4 (ruleRecord rule) = ruleLines rule := by
      unfold recordTexts ruleRecord ruleLines
      cases rule.when_ with
      | none => rfl
      | some w => rfl
    refine ⟨drawn.text.trans ?_, drawn.fits, drawn.sound⟩
    rw [List.flatMap_map, funext lines]
    rfl

theorem draws_artifacts {art : Block} {lines : List Text} (shown : Shown lines art) :
    Draws (artifactBlock art) 2 (itemSection "  artifacts:" ("    ".toList ++ ·) lines) := by
  have filled := shown.filled
  unfold artifactBlock itemSection
  cases lines with
  | nil =>
    rw [filled]
    exact draws_done 2
  | cons line rest =>
    rw [filled]
    exact draws_nested (bare_key_fits "artifacts" (by decide)) filled shown.drawn

theorem draws_services (services : List Text) (plain : ∀ s ∈ services, isLeafWord s = true) :
    Draws (wordsBlock "services" (services.map .plain)) 2 (itemSection "  services:" ("    - ".toList ++ ·) services) := by
  have drawn := draws_word_section "services" (by decide) (services.map .plain) (plain_words_sound plain)
  have texts : (services.map Written.plain).map Written.text = services := by
    rw [List.map_map]
    exact List.map_id' services
  rw [texts] at drawn
  exact drawn

theorem draws_allow_failure (allowed : Bool) : Draws (if allowed then plainLeaf "allow_failure" "true" else .done) 2
    (if allowed then ["  allow_failure: true".toList] else []) := by
  cases allowed with
  | true => exact draws_plain_leaf "allow_failure" (by decide) (plain_leaf_word (by decide)) 2
  | false => exact draws_done 2

end Pieces

section Job

variable {j : Job} {art : Block} (tidy : j.Tidy art)

include tidy

theorem draws_body : Draws (j.body art) 2 (("  stage: ".toList ++ j.stage) :: (imageLines j.image ++
    (itemSection "  services:" ("    - ".toList ++ ·) j.services ++ (variableLines j.assignments ++
      ((j.needs.map fun ns => "  needs: ".toList ++ quotedList ns).toList ++ (matrixLines j.matrix ++
        (actionLines j ++ (settingLine "environment" j.environment ++
          (settingLine "resource_group" j.resourceGroup ++
            (itemSection "  artifacts:" ("    ".toList ++ ·) j.artifacts ++ (occasionLines j ++
              if j.allowFailure then ["  allow_failure: true".toList] else []))))))))))) := by
  have words := tidy.words
  simp only [settingWords, List.forall_mem_append, List.forall_mem_map, Option.mem_toList, List.mem_flatMap,
    forall_exists_index, and_imp] at words
  obtain ⟨image, services, trigger, environment, group, occasion, rules⟩ := words
  have names := tidy.names
  simp only [variableNames, List.forall_mem_append, List.forall_mem_map] at names
  have rest := (draws_image j.image image).append <| (draws_services j.services services).append <|
    (draws_variables j.assignments names.1).append <| (draws_needs j.needs).append <|
      (draws_matrix j.matrix names.2).append <| (draws_action j trigger).append <|
        (draws_setting "environment" (by decide) j.environment environment).append <|
          (draws_setting "resource_group" (by decide) j.resourceGroup group).append <|
            (draws_artifacts tidy.artifacts).append <|
              (draws_occasion j occasion fun r member w said => rules w r member said).append
                (draws_allow_failure j.allowFailure)
  exact (draws_plain_leaf "stage" (by decide) (plain_leaf_word tidy.stage) 2).append rest

-- The lines of a job show its block.
theorem draws_job : Draws (j.block art) 0 j.layout := by
  have key : (Key.mk j.name false).Fits := fun bare => nomatch bare
  have drawn := (draws_quiet 0 (j.comments.map ("# ".toList ++ ·)) 0).append
    (draws_nested key rfl (draws_body tidy))
  refine ⟨drawn.text.trans ?_, drawn.fits, drawn.sound⟩
  rw [List.map_map]
  unfold layout
  simp only [List.append_assoc, List.cons_append, List.nil_append]
  rfl

end Job
end PipelineMigration.Job
