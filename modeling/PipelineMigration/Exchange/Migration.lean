import PipelineMigration.Exchange.Capability
import PipelineMigration.Exchange.Credential
import PipelineMigration.Exchange.Feature
import PipelineMigration.Migration
set_option autoImplicit false

/- Migrations and what they work with as JSON. -/
namespace PipelineMigration.Exchange

def lintJson (r : LintReport) : Json := obj [("valid", .bool r.valid), ("errors", arr str r.errors)]

def entryOf (v : Json) : CompatibilityEntry :=
  { tier := tierOf (member "tier" v), note := text (member "note" v)
    equivalent := text? (member "equivalent" v), include_ := text? (member "include" v)
    documentation := text? (member "documentation" v)
    alternative := text? (member "alternative" v) }

def settingsOf (v : Json) : MigrationSettings :=
  { tables := {
      aliases := match member "aliases" v with
        | .object ms => ms.map fun (k, a) => (k, text a)
        | _ => Capability.aliases
      catalog := match member "compatibility" v with
        | .object ms => ms.map fun (k, e) => (k, entryOf e)
        | _ => Capability.catalog
      excluded := excludedOf (member "excluded_tokens" v) }
    keys := {
      reservedPrefix := textOr "CI_" (member "reserved_prefix" v)
      appMarker := textOr "APP_" (member "app_marker" v)
      maxLength := intOr 255 (member "max_key_length" v)
      warnLength := intOr 100 (member "warn_key_length" v) }
    review := { threshold := floatOf (textOr "0.7" (member "review_threshold" v)) } }

def timeOf (v : Json) : Option Timestamp := (text? v).bind Timestamp.read?

def usualTime : Timestamp :=
  { year := 2024, month := 1, day := 2, hour := 3, minute := 4, second := 5, offset := some 0 }

def stampOf (v : Json) : Text := ((timeOf v).getD usualTime).secondsText

def migrationJson (m : Migration) : Json :=
  obj [("extraction", extractionJson m.extraction),
    ("plugin_hits", arr capabilityHitJson m.capabilityHits),
    ("verdicts", arr verdictJson m.verdicts), ("summary", readinessJson m.readiness),
    ("credential_hits", arr credentialHitJson m.credentialHits),
    ("specs", arr variableJson m.specs), ("validation", validationJson m.validation),
    ("tier", str m.tier.name), ("configuration", str m.configuration), ("lint", lintJson m.lint),
    ("checklist", str m.checklist), ("review_count", num m.reviewCount)]

end PipelineMigration.Exchange
