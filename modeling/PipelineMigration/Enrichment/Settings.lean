import PipelineMigration.Enrichment.Consultation
set_option autoImplicit false

/- Settings of consultations: given ones first, then those of the environment, then the usual
   ones. -/
namespace PipelineMigration.Enrichment

/-- What is given when consultations are set up. -/
structure GivenSettings where
  apiKey : Option Text := none
  model : Option Text := none
  timeout : Option Float := none
  rateLimit : Option Int := none
  cacheLifetime : Option Float := none

structure Settings where
  apiKey : Text
  model : Text
  timeout : Float
  rateLimit : Int
  cacheLifetime : Float

inductive SettingsError where
  | notAFloat (text : Text)
  | integer (error : Number.IntegerError)
deriving DecidableEq

def SettingsError.message : SettingsError → Text
  | notAFloat text => Number.notAFloat text
  | integer error => error.message

def floatSetting (text : Text) : Except SettingsError Float :=
  match Number.readFloat? text with
  | some x => .ok x
  | none => .error (.notAFloat text)

def integerSetting (text : Text) : Except SettingsError Int :=
  (Number.readInteger text).mapError .integer

abbrev Environment := List (Text × Text)

def setting? (env : Environment) (name : String) : Option Text := Keyed.get? name.toList env

/-- The first of several texts that is not empty. -/
def firstSaid (texts : List (Option Text)) : Text :=
  (texts.findSome? fun t => t.filter fun s => !s.isEmpty).getD []

def Settings.of (env : Environment) (given : GivenSettings) : Except SettingsError Settings := do
  let read (name usual : String) : Text := (setting? env name).getD usual.toList
  let timeout ← match given.timeout with
    | some x => .ok x
    | none => floatSetting (read "FERRYMAN_ENRICHMENT_TIMEOUT" "10")
  let rateLimit ← match given.rateLimit with
    | some n => .ok n
    | none => integerSetting (read "FERRYMAN_ENRICHMENT_RATE_LIMIT" "50")
  let cacheLifetime ← match given.cacheLifetime with
    | some x => .ok x
    | none => floatSetting (read "FERRYMAN_ENRICHMENT_CACHE_TTL" "86400")
  pure {
    apiKey := firstSaid [given.apiKey, setting? env "OPENROUTER_API_KEY"]
    model := firstSaid [given.model, setting? env "FERRYMAN_ENRICHMENT_MODEL", some defaultModel]
    timeout, rateLimit, cacheLifetime }

def Settings.consultation (s : Settings) : Consultation Float :=
  { apiKey := s.apiKey, model := s.model, limit := s.rateLimit, lifetime := s.cacheLifetime }

end PipelineMigration.Enrichment
