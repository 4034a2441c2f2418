import PipelineMigration.Capability.Basic
import PipelineMigration.Feature.Basic
import PipelineMigration.Timestamp
set_option autoImplicit false

/- How ready a pipeline is to move: counts by tier, the weighted score and the size of the job. -/
namespace PipelineMigration

structure Readiness where
  total : Nat
  native : Nat
  templated : Nat
  limited : Nat
  unsupported : Nat
  score : Nat
deriving DecidableEq

namespace Capability

def countTier (tier : SupportTier) (verdicts : List Verdict) : Nat :=
  verdicts.countP fun v => v.tier == tier

/-- The mean weight to the nearest whole number, a half going up; full when there is nothing. -/
def score (verdicts : List Verdict) : Nat :=
  if verdicts.isEmpty then 100
  else
    let weighted := verdicts.foldr (fun v total => v.tier.weight + total) 0
    min 100 ((2 * weighted + verdicts.length) / (2 * verdicts.length))

def summarize (verdicts : List Verdict) : Readiness :=
  { total := verdicts.length
    native := countTier .native verdicts
    templated := countTier .templated verdicts
    limited := countTier .limited verdicts
    unsupported := countTier .unsupported verdicts
    score := score verdicts }

end Capability

/-- The size of a migration, which decides its stages. -/
inductive ComplexityTier where
  | simple | medium | complex
  | other (name : Text)
deriving DecidableEq

namespace ComplexityTier

def known : List ComplexityTier := [simple, medium, complex]

def name : ComplexityTier → Text
  | simple => "simple"
  | medium => "medium"
  | complex => "complex"
  | other name => name

def ofName (s : Text) : ComplexityTier := (known.find? (·.name == s)).getD (other s)

/-- More than fifteen capabilities or a scripted pipeline are complex, more than five medium. -/
def of (verdicts : List Verdict) (style : Option PipelineStyle) : ComplexityTier :=
  if 15 < verdicts.length || style == some .scripted then complex
  else if 5 < verdicts.length then medium
  else simple

end ComplexityTier
end PipelineMigration

/- The checklist of a migration: a summary, the capabilities by tier and general advice. -/
namespace PipelineMigration.Capability

def tierHeading : SupportTier → Text
  | .native => "Native support"
  | .templated => "Available as template"
  | .limited => "Limited support - manual work needed"
  | .unsupported => "Unsupported - requires redesign"

def generalAdvice : List Text :=
  ["Store every credential as a masked, protected CI/CD variable before the first run.",
    "Move shared library steps into included CI templates.",
    "Replace interactive input steps with manual jobs.",
    "Run the converted pipeline on a feature branch before switching over."]

/-- A line of detail under a capability, where there is something to say. -/
def detail (label : String) (value : Option Text) : List Text :=
  ((said value).map fun s => "  - ".toList ++ label.toList ++ ": ".toList ++ s).toList

def checklistItem (v : Verdict) : List Text :=
  let label := v.id ++ ((said v.equivalent).map (" -> ".toList ++ ·)).getD []
  [("- [ ] **" ++ label ++ "** (line " ++ Text.ofInt v.firstLine ++ "): " ++ v.note : Text)] ++
    detail "Include" ((said v.include_).map fun s => '\x60' :: s ++ ['\x60']) ++
    detail "Alternative" v.alternative ++
    detail "Analysis" v.enrichmentNote ++
    detail "Docs" v.documentation

def tierSection (verdicts : List Verdict) (tier : SupportTier) : List Text :=
  let group := verdicts.filter fun v => v.tier == tier
  if group.isEmpty then []
  else ["## ".toList ++ tierHeading tier, []] ++ group.flatMap checklistItem ++ [[]]

def summarySection (r : Readiness) : List Text :=
  ["## Summary", "",
    "- Total capabilities: " ++ Text.ofNat r.total,
    "- Native: " ++ Text.ofNat r.native,
    "- Templated: " ++ Text.ofNat r.templated,
    "- Limited: " ++ Text.ofNat r.limited,
    "- Unsupported: " ++ Text.ofNat r.unsupported,
    "- Readiness score: " ++ Text.ofNat r.score ++ "/100",
    ""]

def stampSection (generatedAt : Option Timestamp) : List Text :=
  match generatedAt with
  | some t => ["Generated: ".toList ++ t.text, []]
  | none => []

def checklistLines (verdicts : List Verdict) (generatedAt : Option Timestamp) : List Text :=
  ["# Migration Checklist".toList, []] ++ stampSection generatedAt ++
    summarySection (summarize verdicts) ++ SupportTier.all.flatMap (tierSection verdicts) ++
    ["## Migration notes".toList, []] ++ generalAdvice.map ("- ".toList ++ ·)

def checklist (verdicts : List Verdict) (generatedAt : Option Timestamp) : Text :=
  Text.join "\n" (checklistLines verdicts generatedAt) ++ "\n"

end PipelineMigration.Capability
