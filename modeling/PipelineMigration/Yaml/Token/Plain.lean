import PipelineMigration.Yaml.Token.Quoted
set_option autoImplicit false

/- Scalars without quotes. They end before a comment, before a colon that a gap follows, and
   inside brackets before a bracket, comma or question mark. -/
namespace PipelineMigration.Yaml

def isFlowMark (c : Char) : Bool := c == ',' || c == '[' || c == ']' || c == '\x7b' || c == '\x7d'

/-- Whether a colon here parts a key from its value. -/
def partsHere (flow : Bool) (rest : Text) : Bool :=
  rest.head?.all fun d => isGap d || (flow && isFlowMark d)

/-- How many characters belong to the scalar before a gap or its end. -/
def plainRun (flow : Bool) : Text → Nat
  | [] => 0
  | c :: r =>
    if isGap c || (c == ':' && partsHere flow r) || (flow && (isFlowMark c || c == '?')) then 0
    else 1 + plainRun flow r

/-- The blank lines inside a plain scalar; nothing when a mark between documents ends it. -/
def plainBreaks : Nat → Cursor → Option Text × Cursor
  | 0, c => (some [], c)
  | fuel + 1, c =>
    let c := c.skip (· == ' ')
    match c.lineBreak? with
    | none => (some [], c)
    | some (b, c) =>
      if beginsMark c.rest then (none, c)
      else
        let (breaks, c) := plainBreaks fuel c
        (breaks.map (b :: ·), c)

structure PlainGap where
  /-- What the gap stands for when the scalar goes on after it; empty when it cannot. -/
  text : Text
  after : Cursor
  /-- Whether the gap holds a line break. -/
  broken : Bool

def plainGap (c : Cursor) : PlainGap :=
  let (spaces, c) := c.span (· == ' ')
  match c.lineBreak? with
  | none => ⟨spaces, c, false⟩
  | some (b, c) =>
    if beginsMark c.rest then ⟨[], c, true⟩
    else match plainBreaks (c.rest.length + 1) c with
      | (some breaks, c) => ⟨foldBreak b breaks, c, true⟩
      | (none, c) => ⟨[], c, true⟩

/-- A plain scalar from a place on, `gap` standing before it. The flag tells whether a line break
    came after the last run; it stays `fresh` when there is no run. -/
def plain (flow : Bool) (indent : Int) : Nat → Bool → Text → Cursor → Text × Cursor × Bool
  | 0, fresh, _, c => ([], c, fresh)
  | fuel + 1, fresh, gap, c =>
    let n := if c.looksAt (· == '#') then 0 else plainRun flow c.rest
    if n = 0 then ([], c, fresh)
    else
      let run := gap ++ c.rest.take n
      let g := plainGap (c.advance n)
      if g.text.isEmpty || g.after.looksAt (· == '#') ||
          (!flow && (g.after.column : Int) < indent) then (run, g.after, g.broken)
      else
        let (more, c, fresh) := plain flow indent fuel g.broken g.text g.after
        (run ++ more, c, fresh)

end PipelineMigration.Yaml
