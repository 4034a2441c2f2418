import PipelineMigration.Yaml.Node
import PipelineMigration.Yaml.Scalar
set_option autoImplicit false

/- From a text to the value of its only document. Tags are kept or the text is malformed; of a key
   that comes twice the last value counts; and the entries that a merge key brings give way to the
   mapping's own. -/
namespace PipelineMigration.Yaml

/-- Values of the anchors so far, and the faults met, each with how deep it lies. -/
structure Building where
  anchors : List (Text × Value) := []
  faults : List (Nat × Fault) := []

namespace Building

def note (anchor : Option Text) (v : Value) (b : Building) : Building :=
  match anchor with
  | some name => { b with anchors := (name, v) :: b.anchors }
  | none => b

def fail (depth : Nat) (f : Fault) (b : Building) : Building :=
  { b with faults := b.faults ++ [(depth, f)] }

def failIf (failed : Bool) (depth : Nat) (b : Building) : Building :=
  if failed then b.fail depth .malformed else b

def lookup (name : Text) (b : Building) : Value := (Keyed.get? name b.anchors).getD .null

/-- The fault that counts: the least deep, and of those the first. -/
def fault? (b : Building) : Option Fault :=
  (b.faults.foldl (fun (best : Option (Nat × Fault)) f => match best with
    | some g => if f.1 < g.1 then some f else some g
    | none => some f) none).map (·.2)

end Building

abbrev Entries := List (Value × Value)

/-- Sets the value of a key, which keeps its first place and form. -/
def setEntry (k v : Value) : Entries → Entries
  | [] => [(k, v)]
  | (a, b) :: rest => if a.same k then (a, v) :: rest else (a, b) :: setEntry k v rest

def ofEntries (entries : Entries) : Entries :=
  entries.foldl (fun held (k, v) => setEntry k v held) []

/-- The entries that a value brings when it is merged, where it can be. -/
def mergedFrom? : Value → Option Entries
  | .mapping entries => some entries
  | .set members => some (members.map (·, .null))
  | .recurrence true => some []
  | _ => none

/-- The same for a value that may also be a list of such; earlier ones win over later ones. -/
def mergedFromAll? : Value → Option Entries
  | .list items => (items.reverse.mapM mergedFrom?).map List.flatten
  | v => mergedFrom? v

def Node.isMergeKey : Node → Bool
  | .scalar _ tag _ => tag == .merge
  | _ => false

/-- The scalar that stands for a mapping: the value of its default key. -/
def defaultText? (entries : List (Node × Node)) : Option Text :=
  entries.findSome? fun (k, v) => match k, v with
    | .scalar _ .default _, .scalar _ _ text => some text
    | _, _ => none

def isScalarTag (tag : Tag) : Bool :=
  tag == .null || tag == .bool || tag == .int || tag == .float || tag == .binary ||
    tag == .time || tag == .text

def scalarOr (depth : Nat) (v : Except Fault Value) (b : Building) : Value × Building :=
  match v with
  | .ok v => (v, b)
  | .error f => (.null, b.fail depth f)

mutual

/-- The value of a node at a depth. -/
def build (depth : Nat) : Node → Building → Value × Building
  | .scalar anchor tag text, b =>
    let (v, b) := scalarOr depth (Scalar.value tag text) b
    (v, b.note anchor v)
  | .alias name, b => (b.lookup name, b)
  | .sequence anchor tag items, b =>
    let b := b.note anchor (.recurrence false)
    if tag == .list then
      let (vs, b) := buildItems (depth + 1) items b
      (.list vs, b.note anchor (.list vs))
    else if tag == .orderedMap || tag == .pairs then
      let (vs, b) := buildPairs (depth + 1) items b
      (.list vs, b.note anchor (.list vs))
    else (.null, b.fail depth .malformed)
  | .mapping anchor tag entries, b =>
    let b := b.note anchor (.recurrence true)
    if tag == .mapping || tag == .set then
      let (merged, own, b) := buildEntries (depth + 1) entries b
      let all := ofEntries (merged ++ own)
      let v := if tag == .set then .set (all.map (·.1)) else .mapping all
      (v, b.note anchor v)
    else match isScalarTag tag, defaultText? entries with
      | true, some text => scalarOr depth (Scalar.value tag text) b
      | _, _ => (.null, b.fail depth .malformed)

def buildItems (depth : Nat) : List Node → Building → List Value × Building
  | [], b => ([], b)
  | n :: rest, b =>
    let (v, b) := build depth n b
    let (vs, b) := buildItems depth rest b
    (v :: vs, b)

/-- Mappings of one entry each. -/
def buildPairs (depth : Nat) : List Node → Building → List Value × Building
  | [], b => ([], b)
  | n :: rest, b =>
    let (p, b) := buildPair depth n b
    let (ps, b) := buildPairs depth rest b
    (p :: ps, b)

def buildPair (depth : Nat) : Node → Building → Value × Building
  | .mapping anchor _ [(k, v)], b =>
    let (k, b) := build depth k b
    let (v, b) := build depth v b
    (.pair k v, b.note anchor (.mapping [(k, v)]))
  | .alias name, b => match b.lookup name with
    | .mapping [(k, v)] => (.pair k v, b)
    | _ => (.null, b.fail depth .malformed)
  | _, b => (.null, b.fail depth .malformed)

/-- The entries merged into a mapping and those of its own. -/
def buildEntries (depth : Nat) : List (Node × Node) → Building → Entries × Entries × Building
  | [], b => ([], [], b)
  | (k, v) :: rest, b =>
    if k.isMergeKey then
      let (brought, b) := buildMerge depth v b
      let (merged, own, b) := buildEntries depth rest b
      (brought ++ merged, own, b)
    else
      let (key, b) := buildKey depth k b
      let b := b.failIf key.unhashable?.isSome depth
      let (value, b) := build depth v b
      let (merged, own, b) := buildEntries depth rest b
      (merged, (key, value) :: own, b)

def buildKey (depth : Nat) : Node → Building → Value × Building
  | .scalar anchor tag text, b =>
    let tag := if tag == .default then .text else tag
    let (v, b) := scalarOr depth (Scalar.value tag text) b
    (v, b.note anchor v)
  | .alias name, b => (b.lookup name, b)
  | .sequence anchor tag items, b =>
    let b := b.note anchor (.recurrence false)
    let (vs, b) := buildItems (depth + 1) items b
    (.list vs, b.failIf (tag == .merge) depth)
  | .mapping anchor _ entries, b =>
    let b := b.note anchor (.recurrence true)
    let (_, own, b) := buildEntries (depth + 1) entries b
    (.mapping own, b)

/-- The entries that the value of a merge key brings. -/
def buildMerge (depth : Nat) : Node → Building → Entries × Building
  | .mapping anchor _ entries, b =>
    let b := b.note anchor (.recurrence true)
    let (merged, own, b) := buildEntries depth entries b
    (merged ++ own, b.note anchor (.mapping (ofEntries (merged ++ own))))
  | .sequence anchor _ items, b =>
    let (parts, b) := buildMerges depth items b
    (parts.reverse.flatten, b.note anchor (.list (parts.map fun p => .mapping (ofEntries p))))
  | .alias name, b => match mergedFromAll? (b.lookup name) with
    | some entries => (entries, b)
    | none => ([], b.fail depth .malformed)
  | .scalar _ _ _, b => ([], b.fail depth .malformed)

def buildMerges (depth : Nat) : List Node → Building → List Entries × Building
  | [], b => ([], b)
  | n :: rest, b =>
    let (entries, b) := buildMergeItem depth n b
    let (more, b) := buildMerges depth rest b
    (entries :: more, b)

def buildMergeItem (depth : Nat) : Node → Building → Entries × Building
  | .mapping anchor _ entries, b =>
    let b := b.note anchor (.recurrence true)
    let (merged, own, b) := buildEntries depth entries b
    (merged ++ own, b.note anchor (.mapping (ofEntries (merged ++ own))))
  | .alias name, b => match mergedFrom? (b.lookup name) with
    | some entries => (entries, b)
    | none => ([], b.fail depth .malformed)
  | _, b => ([], b.fail depth .malformed)

end

/-- The value of the only document of a text; a text without a document is null. -/
def read (text : Text) : Except Fault Value := do
  if !text.all isAllowed then .error .malformed
  else match ← Node.ofTokens? (tokens text) with
    | none => pure .null
    | some n =>
      let (v, b) := build 0 n {}
      match b.fault? with
      | some f => .error f
      | none => pure v

end PipelineMigration.Yaml
