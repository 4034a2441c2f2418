import PipelineMigration.Yaml.Tag
import PipelineMigration.Yaml.Token.Scan
set_option autoImplicit false

/- The tree of nodes that tokens spell, with tags decided and aliases by name. -/
namespace PipelineMigration.Yaml

inductive Node where
  | scalar (anchor : Option Text) (tag : Tag) (text : Text)
  | sequence (anchor : Option Text) (tag : Tag) (items : List Node)
  | mapping (anchor : Option Text) (tag : Tag) (entries : List (Node × Node))
  | alias (name : Text)

namespace Node

/-- What the handles of tags stand for. -/
abbrev Handles := List (Text × Text)

/-- What is left to read. -/
structure Rest where
  tokens : List Token
  /-- The anchors met so far. -/
  anchors : List Text := []

namespace Rest

def drop (r : Rest) : Rest := { r with tokens := r.tokens.drop 1 }

/-- Whether one of the tokens comes next. -/
def meets (r : Rest) (ts : List Token) : Bool := r.tokens.head?.any fun t => ts.contains t

/-- The fault of a token that does not belong here. -/
def fault (r : Rest) : Fault :=
  match r.tokens with
  | .broken f :: _ => f
  | _ => .malformed

end Rest

/-- An empty scalar, which is null. -/
def empty : Node := scalar none .null []

/-- What stands before a node. -/
structure Properties where
  anchor : Option Text := none
  tag : Option Text := none

def anchorOf (r : Rest) : Option Text × Rest :=
  match r.tokens with
  | .anchor name :: t => (some name, { r with tokens := t })
  | _ => (none, r)

/-- A tag with its handle replaced. -/
def tagOf (handles : Handles) (r : Rest) : Except Fault (Option Text × Rest) :=
  match r.tokens with
  | .tag none rest :: t => .ok (some rest, { r with tokens := t })
  | .tag (some handle) rest :: t => match Keyed.get? handle handles with
    | some uri => .ok (some (uri ++ rest), { r with tokens := t })
    | none => .error .malformed
  | _ => .ok (none, r)

def noteAnchor (anchor : Option Text) (r : Rest) : Except Fault Rest :=
  match anchor with
  | none => .ok r
  | some name =>
    if r.anchors.contains name then .error .malformed
    else .ok { r with anchors := name :: r.anchors }

/-- An anchor and a tag, in either order. -/
def properties (handles : Handles) (r : Rest) : Except Fault (Properties × Rest) := do
  let (anchor, r) := anchorOf r
  let (tag, r) ← tagOf handles r
  let (anchor, r) := if anchor.isSome then (anchor, r) else anchorOf r
  let r ← noteAnchor anchor r
  pure ({ anchor, tag }, r)

def nonSpecific : Text := "!"

/-- The tag of a node that has a tag of its own, or takes `otherwise`. -/
def tagOr (otherwise : Tag) (tag : Option Text) : Tag :=
  match tag with
  | none => otherwise
  | some uri => if uri = nonSpecific then otherwise else Tag.ofUri uri

/-- A quoted scalar without a tag is text; others without a tag go by their look. -/
def scalarTag (tag : Option Text) (text : Text) (plain : Bool) : Tag :=
  tagOr (if tag.isNone && !plain then .text else Tag.ofPlain text) tag

/-- A pair in brackets of a list is a mapping of one entry. -/
def pairNode (k v : Node) : Node := mapping none .mapping [(k, v)]

mutual

/-- A node; `block` allows block collections, and `flush` a sequence at the key's indentation. -/
def parse (handles : Handles) : Nat → Bool → Bool → Rest → Except Fault (Node × Rest)
  | 0, _, _, r => .error r.fault
  | fuel + 1, block, flush, r => match r.tokens with
    | .alias name :: t =>
      if r.anchors.contains name then .ok (.alias name, { r with tokens := t })
      else .error .malformed
    | _ => do
      let (p, r) ← properties handles r
      match r.tokens with
      | .scalar text plain :: _ => pure (scalar p.anchor (scalarTag p.tag text plain) text, r.drop)
      | .flowSequenceStart :: _ => do
        let (items, r) ← flowItems handles fuel true r.drop
        pure (sequence p.anchor (tagOr .list p.tag) items, r)
      | .flowMappingStart :: _ => do
        let (entries, r) ← flowEntries handles fuel true r.drop
        pure (mapping p.anchor (tagOr .mapping p.tag) entries, r)
      | t :: _ =>
        if flush && t == .blockEntry then do
          let (items, r) ← flushItems handles fuel r
          pure (sequence p.anchor (tagOr .list p.tag) items, r)
        else if block && t == .blockSequenceStart then do
          let (items, r) ← blockItems handles fuel r.drop
          pure (sequence p.anchor (tagOr .list p.tag) items, r)
        else if block && t == .blockMappingStart then do
          let (entries, r) ← blockEntries handles fuel r.drop
          pure (mapping p.anchor (tagOr .mapping p.tag) entries, r)
        else if p.anchor.isSome || p.tag.isSome then
          pure (scalar p.anchor (scalarTag p.tag [] true) [], r)
        else .error r.fault
      | [] => .error r.fault

/-- A node, or an empty one when one of the tokens comes next. -/
def parseUnless (handles : Handles) :
    Nat → List Token → Bool → Bool → Rest → Except Fault (Node × Rest)
  | 0, _, _, _, r => .error r.fault
  | fuel + 1, ends, block, flush, r =>
    if r.meets ends then .ok (empty, r) else parse handles fuel block flush r

/-- The value after a key; without a value mark it is empty. -/
def parseValue (handles : Handles) :
    Nat → List Token → Bool → Rest → Except Fault (Node × Rest)
  | 0, _, _, r => .error r.fault
  | fuel + 1, ends, block, r =>
    if r.meets [.value] then parseUnless handles fuel ends block block r.drop else .ok (empty, r)

def blockItems (handles : Handles) : Nat → Rest → Except Fault (List Node × Rest)
  | 0, r => .error r.fault
  | fuel + 1, r =>
    if r.meets [.blockEntry] then do
      let (item, r) ← parseUnless handles fuel [.blockEntry, .blockEnd] true false r.drop
      let (items, r) ← blockItems handles fuel r
      pure (item :: items, r)
    else if r.meets [.blockEnd] then .ok ([], r.drop)
    else .error r.fault

def flushItems (handles : Handles) : Nat → Rest → Except Fault (List Node × Rest)
  | 0, r => .error r.fault
  | fuel + 1, r =>
    if r.meets [.blockEntry] then do
      let (item, r) ←
        parseUnless handles fuel [.blockEntry, .key, .value, .blockEnd] true false r.drop
      let (items, r) ← flushItems handles fuel r
      pure (item :: items, r)
    else .ok ([], r)

def blockEntries (handles : Handles) : Nat → Rest → Except Fault (List (Node × Node) × Rest)
  | 0, r => .error r.fault
  | fuel + 1, r =>
    if r.meets [.key] then do
      let (k, r) ← parseUnless handles fuel [.key, .value, .blockEnd] true true r.drop
      let (v, r) ← parseValue handles fuel [.key, .value, .blockEnd] true r
      let (entries, r) ← blockEntries handles fuel r
      pure ((k, v) :: entries, r)
    else if r.meets [.blockEnd] then .ok ([], r.drop)
    else .error r.fault

/-- The items up to the closing bracket; all but the first follow a comma. -/
def flowItems (handles : Handles) : Nat → Bool → Rest → Except Fault (List Node × Rest)
  | 0, _, r => .error r.fault
  | fuel + 1, first, r =>
    if r.meets [.flowSequenceEnd] then .ok ([], r.drop)
    else if !first && !r.meets [.flowEntry] then .error r.fault
    else
      let r := if first then r else r.drop
      if r.meets [.key] then do
        let (k, r) ←
          parseUnless handles fuel [.value, .flowEntry, .flowSequenceEnd] false false r.drop
        let (v, r) ← parseValue handles fuel [.flowEntry, .flowSequenceEnd] false r
        let (items, r) ← flowItems handles fuel false r
        pure (pairNode k v :: items, r)
      else if r.meets [.flowSequenceEnd] then .ok ([], r.drop)
      else do
        let (item, r) ← parse handles fuel false false r
        let (items, r) ← flowItems handles fuel false r
        pure (item :: items, r)

def flowEntries (handles : Handles) :
    Nat → Bool → Rest → Except Fault (List (Node × Node) × Rest)
  | 0, _, r => .error r.fault
  | fuel + 1, first, r =>
    if r.meets [.flowMappingEnd] then .ok ([], r.drop)
    else if !first && !r.meets [.flowEntry] then .error r.fault
    else
      let r := if first then r else r.drop
      if r.meets [.key] then do
        let (k, r) ←
          parseUnless handles fuel [.value, .flowEntry, .flowMappingEnd] false false r.drop
        let (v, r) ← parseValue handles fuel [.flowEntry, .flowMappingEnd] false r
        let (entries, r) ← flowEntries handles fuel false r
        pure ((k, v) :: entries, r)
      else if r.meets [.flowMappingEnd] then .ok ([], r.drop)
      else do
        let (k, r) ← parse handles fuel false false r
        let (entries, r) ← flowEntries handles fuel false r
        pure ((k, empty) :: entries, r)

end

def standardHandles : Handles := [("!", "!"), ("!!", Tag.uriStart)]

/-- The directives before a document: the handles they define. A handle is defined once, and a
    version is named once and begins with one. -/
def directives (versioned : Bool) (handles : Handles) :
    List Token → Except Fault (Handles × List Token)
  | .directive (.version major) :: t =>
    if versioned || major ≠ 1 then .error .malformed else directives true handles t
  | .directive (.tagHandle handle uri) :: t =>
    if Keyed.has handle handles then .error .malformed
    else directives versioned (handles ++ [(handle, uri)]) t
  | .directive .other :: t => directives versioned handles t
  | t => .ok (handles ++ standardHandles, t)

/-- Whether an explicit document has no content. -/
def isBare : List Token → Bool
  | .directive _ :: _ => true
  | .documentStart :: _ => true
  | .documentEnd :: _ => true
  | .streamEnd :: _ => true
  | _ => false

def skipEnds : List Token → List Token
  | .documentEnd :: t => skipEnds t
  | t => t

/-- Nothing but ends of documents may follow the only document. -/
def atEnd (n : Node) (r : Rest) : Except Fault (Option Node) :=
  match skipEnds r.tokens with
  | .streamEnd :: _ => .ok (some n)
  | t => .error (Rest.fault ⟨t, []⟩)

def parseRoot (handles : Handles) (t : List Token) : Except Fault (Option Node) := do
  let (n, r) ← parse handles (4 * t.length + 4) true false { tokens := t }
  atEnd n r

def explicitDocument (t : List Token) : Except Fault (Option Node) := do
  let (handles, t) ← directives false [] t
  match t with
  | .documentStart :: t => if isBare t then atEnd empty ⟨t, []⟩ else parseRoot handles t
  | t => .error (Rest.fault ⟨t, []⟩)

/-- The only document of a stream of tokens, or nothing when there is none. -/
def ofTokens? (t : List Token) : Except Fault (Option Node) :=
  match t with
  | .streamEnd :: _ => .ok none
  | .directive _ :: _ => explicitDocument t
  | .documentStart :: _ => explicitDocument t
  | _ => parseRoot standardHandles t

end Node
end PipelineMigration.Yaml
