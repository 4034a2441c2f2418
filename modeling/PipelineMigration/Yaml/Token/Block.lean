import PipelineMigration.Yaml.Token.Quoted
set_option autoImplicit false

/- Block scalars: lines under an indicator, kept as they are or folded. -/
namespace PipelineMigration.Yaml

/-- What follows the indicator: whether line breaks at the end are all kept or all dropped, and the
    indentation of the lines. -/
structure BlockHeader where
  keep : Option Bool := none
  increment : Option Nat := none

def chomping? (c : Char) : Option Bool :=
  if c == '+' then some true else if c == '-' then some false else none

def isIncrement (c : Char) : Bool := '1' ≤ c && c ≤ '9'
def incrementOf (c : Char) : Nat := c.toNat - '0'.toNat

/-- The header and the place after it. -/
def blockHeader (c : Cursor) : BlockHeader × Cursor :=
  match c.rest with
  | a :: r => match chomping? a with
    | some keep => match r with
      | b :: _ => if isIncrement b then (⟨some keep, some (incrementOf b)⟩, c.advance 2)
        else (⟨some keep, none⟩, c.step)
      | [] => (⟨some keep, none⟩, c.step)
    | none =>
      if isIncrement a then
        match r.head?.bind chomping? with
        | some keep => (⟨some keep, some (incrementOf a)⟩, c.advance 2)
        | none => (⟨none, some (incrementOf a)⟩, c.step)
      else ({}, c)
  | [] => ({}, c)

/-- Blank lines before the first line, and the deepest indentation among them and that line. -/
def firstBreaks : Nat → Nat → Cursor → Text × Nat × Cursor
  | 0, deepest, c => ([], deepest, c)
  | fuel + 1, deepest, c =>
    if c.looksAt (· == ' ') then firstBreaks fuel (max deepest c.step.column) c.step
    else match c.lineBreak? with
      | none => ([], deepest, c)
      | some (b, c) =>
        let (breaks, deepest, c) := firstBreaks fuel deepest c
        (b :: breaks, deepest, c)

def skipIndent (indent : Nat) : Nat → Cursor → Cursor
  | 0, c => c
  | fuel + 1, c =>
    if c.column < indent && c.looksAt (· == ' ') then skipIndent indent fuel c.step else c

/-- Blank lines between lines, and up to `indent` spaces of the next line. -/
def blockBreaks (indent : Nat) : Nat → Cursor → Text × Cursor
  | 0, c => ([], c)
  | fuel + 1, c =>
    let c := skipIndent indent indent c
    match c.lineBreak? with
    | none => ([], c)
    | some (b, c) =>
      let (breaks, c) := blockBreaks indent fuel c
      (b :: breaks, c)

structure BlockBody where
  text : Text
  /-- The break after the last line, and those after that. -/
  lastBreak : Text
  breaks : Text
  after : Cursor

/-- The lines at an indentation, `breaks` being the blank lines before them. -/
def blockBody (folded : Bool) (indent : Nat) : Nat → Text → Cursor → BlockBody
  | 0, breaks, c => ⟨[], [], breaks, c⟩
  | fuel + 1, breaks, c =>
    if c.column ≠ indent ∨ c.rest.isEmpty then ⟨[], [], breaks, c⟩
    else
      let flush := !c.looksAt isTabOrSpace
      let (line, c) := c.span fun x => !isBreak x
      let (ending, c) : Text × Cursor := match c.lineBreak? with
        | some (b, c) => ([b], c)
        | none => ([], c)
      let (next, c) := blockBreaks indent (fuel + 1) c
      if c.column = indent ∧ !c.rest.isEmpty then
        let glue := if folded && ending == ['\n'] && flush && !c.looksAt isTabOrSpace
          then (if next.isEmpty then [' '] else []) else ending
        let body := blockBody folded indent fuel next c
        { body with text := breaks ++ line ++ glue ++ body.text }
      else ⟨breaks ++ line, ending, next, c⟩

/-- A block scalar after its indicator, inside a collection at indentation `outer`; `budget` is more
    than the characters that are left. -/
def blockScalar (budget : Nat) (folded : Bool) (outer : Int) (c : Cursor) :
    Except Fault (Text × Cursor) :=
  let (header, c) := blockHeader c
  if !endsField c.rest then .error .malformed
  else
    let c := c.skipRemark
    if !endsLine c.rest then .error .malformed
    else
      let c := c.passBreak
      let least := (max 1 (outer + 1)).toNat
      let (breaks, indent, c) : Text × Nat × Cursor := match header.increment with
        | none =>
          let (breaks, deepest, c) := firstBreaks budget 0 c
          (breaks, max least deepest, c)
        | some increment =>
          let indent := least + increment - 1
          let (breaks, c) := blockBreaks indent budget c
          (breaks, indent, c)
      let body := blockBody folded indent budget breaks c
      .ok (body.text ++ (if header.keep == some false then [] else body.lastBreak) ++
        (if header.keep == some true then body.breaks else []), body.after)

end PipelineMigration.Yaml
