import PipelineMigration.Pattern.Basic
set_option autoImplicit false

/- Matching a pattern at a place and finding its matches in a text, from the left and without
   overlap. -/
namespace PipelineMigration.Pattern

/-- Repeats a step one or more times, each time consuming something, before going on. -/
def severally {α : Type} (step : Place → Captures → (Place → Captures → Option α) → Option α) :
    Nat → Place → Captures → (Place → Captures → Option α) → Option α
  | 0, _, _, _ => none
  | fuel + 1, here, caught, next =>
    step here caught fun there caught =>
      if there.index ≤ here.index then none
      else match severally step fuel there caught next with
        | some result => some result
        | none => next there caught

/-- Matches at a place and hands the place after the match to `next`; the first way that `next`
    accepts decides. -/
def run {α : Type} : Pattern → Place → Captures → (Place → Captures → Option α) → Option α
  | empty, here, caught, next => next here caught
  | one p, here, caught, next => match here.ahead with
    | [] => none
    | c :: r => if p c then next ⟨some c, r, here.index + 1⟩ caught else none
  | exactly s, here, caught, next =>
    if s.isPrefixOf here.ahead then next (here.advance s.length) caught else none
  | andThen a b, here, caught, next =>
    a.run here caught fun there caught => b.run there caught next
  | orElse a b, here, caught, next => match a.run here caught next with
    | some result => some result
    | none => b.run here caught next
  | longest least p, here, caught, next =>
    ((Place.reach p here.before here.index here.ahead).drop least).reverse.findSome? (next · caught)
  | shortest least p, here, caught, next =>
    ((Place.reach p here.before here.index here.ahead).drop least).findSome? (next · caught)
  | several a, here, caught, next => severally a.run (here.ahead.length + 1) here caught next
  | capture slot a, here, caught, next =>
    a.run here caught fun there caught => next there ((slot, ⟨here, there.index⟩) :: caught)
  | around test, here, caught, next => if test here.before here.ahead then next here caught else none

end Pattern

structure Match where
  span : Span
  /-- The place after the match. -/
  after : Place
  captures : Captures

namespace Match

def start (m : Match) : Nat := m.span.start.index
def stop (m : Match) : Nat := m.span.stop
def text (m : Match) : Text := m.span.text
def span? (m : Match) (slot : Nat) : Option Span := (m.captures.find? (·.1 == slot)).map (·.2)
def text? (m : Match) (slot : Nat) : Option Text := (m.span? slot).map Span.text

/-- The captured text, empty where the slot took no part. -/
def captured (m : Match) (slot : Nat) : Text := (m.text? slot).getD []

end Match

namespace Pattern

def matchAt (a : Pattern) (here : Place) : Option Match :=
  a.run here [] fun there caught => some ⟨⟨here, there.index⟩, there, caught⟩

/-- The matches from a place on; `skip` characters still belong to the last one. -/
def matchesFrom (a : Pattern) (before : Option Char) (index : Nat) : Nat → Text → List Match
  | 0, [] => (a.matchAt ⟨before, [], index⟩).toList
  | _ + 1, [] => []
  | skip + 1, c :: r => matchesFrom a (some c) (index + 1) skip r
  | 0, c :: r => match a.matchAt ⟨before, c :: r, index⟩ with
    | none => matchesFrom a (some c) (index + 1) 0 r
    | some m => m :: matchesFrom a (some c) (index + 1) (m.stop - m.start - 1) r

def allMatches (a : Pattern) (s : Text) : List Match := matchesFrom a none 0 0 s

def firstMatchFrom (a : Pattern) (before : Option Char) (index : Nat) : Text → Option Match
  | [] => a.matchAt ⟨before, [], index⟩
  | c :: r => match a.matchAt ⟨before, c :: r, index⟩ with
    | some m => some m
    | none => firstMatchFrom a (some c) (index + 1) r

def firstMatch (a : Pattern) (s : Text) : Option Match := firstMatchFrom a none 0 s

def occursIn (a : Pattern) (s : Text) : Bool := (a.firstMatch s).isSome

/-- A match that begins where the text begins. -/
def matchStart (a : Pattern) (s : Text) : Option Match := a.matchAt (Place.start s)

/-- The text with every match replaced; `skip` characters still belong to the last one. -/
def substituteFrom (a : Pattern) (new : Match → Text) (before : Option Char) (index : Nat) :
    Nat → Text → Text
  | _, [] => []
  | skip + 1, c :: r => substituteFrom a new (some c) (index + 1) skip r
  | 0, c :: r => match a.matchAt ⟨before, c :: r, index⟩ with
    | none => c :: substituteFrom a new (some c) (index + 1) 0 r
    | some m => new m ++ substituteFrom a new (some c) (index + 1) (m.stop - m.start - 1) r

def substitute (a : Pattern) (new : Match → Text) (s : Text) : Text :=
  substituteFrom a new none 0 0 s

end PipelineMigration.Pattern
