import PipelineMigration.Text.Basic
set_option autoImplicit false

/- Capabilities of the source system and how far the target covers them. -/
namespace PipelineMigration

inductive SupportTier where
  | native | templated | limited | unsupported
deriving DecidableEq

namespace SupportTier

/-- From full support to none. -/
def all : List SupportTier := [native, templated, limited, unsupported]

def name : SupportTier → Text
  | native => "native"
  | templated => "templated"
  | limited => "limited"
  | unsupported => "unsupported"

def ofName? (s : Text) : Option SupportTier := all.find? (·.name == s)

/-- The share of a capability that carries over, in percent. -/
def weight : SupportTier → Nat
  | native => 100
  | templated => 85
  | limited => 60
  | unsupported => 0

/-- Lower comes first. -/
def priority : SupportTier → Nat
  | native => 1
  | templated => 2
  | limited => 3
  | unsupported => 4

end SupportTier

inductive Complexity where
  | easy | medium | hard
deriving DecidableEq

def Complexity.name : Complexity → Text
  | easy => "easy"
  | medium => "medium"
  | hard => "hard"

def SupportTier.complexity : SupportTier → Complexity
  | native => .easy
  | templated => .medium
  | limited => .medium
  | unsupported => .hard

/-- How surely a piece of script uses a capability. -/
inductive HitConfidence where
  | high | medium | low
  | other (name : Text)
deriving DecidableEq

namespace HitConfidence

def known : List HitConfidence := [high, medium, low]

def name : HitConfidence → Text
  | high => "high"
  | medium => "medium"
  | low => "low"
  | other name => name

def ofName (s : Text) : HitConfidence := (known.find? (·.name == s)).getD (other s)

def percent : HitConfidence → Nat
  | high => 100
  | medium => 75
  | low => 40
  | other _ => 40

end HitConfidence

/-- One use of a capability in a script. -/
structure CapabilityHit where
  id : Text
  line : Int
  matchedText : Text
  confidence : HitConfidence
deriving DecidableEq

/-- What is known of a capability on the target. -/
structure CompatibilityEntry where
  tier : SupportTier
  note : Text
  equivalent : Option Text := none
  include_ : Option Text := none
  documentation : Option Text := none
  alternative : Option Text := none
deriving DecidableEq

/-- The judgment of one capability with the hits that it rests on. -/
structure Verdict where
  id : Text
  tier : SupportTier
  note : Text
  hits : List CapabilityHit
  confidence : Float
  equivalent : Option Text := none
  include_ : Option Text := none
  documentation : Option Text := none
  alternative : Option Text := none
  enrichmentNote : Option Text := none

namespace Verdict

def complexity (v : Verdict) : Complexity := v.tier.complexity
def firstLine (v : Verdict) : Int := (v.hits.head?.map (·.line)).getD 0
def withoutNote (v : Verdict) : Verdict := { v with enrichmentNote := none }

end Verdict

/-- An optional text that says something. -/
def said (t : Option Text) : Option Text := t.filter fun s => !s.isEmpty

end PipelineMigration
