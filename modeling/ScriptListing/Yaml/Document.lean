import ScriptListing.Yaml.Error
import ScriptListing.Yaml.Node
import ScriptListing.Yaml.Token.Stream

/-! The first document of a text as a tree. Tokens are read from the left, as far as the
one after the document; what comes later does not matter. -/
namespace ScriptListing.Yaml

/-- An anchor by name and number. Its node is known once it is complete. -/
structure Anchor where
  name : String
  number : Nat
  node : Option Node

structure Compose where
  tokens : List Token
  /-- What is wrong after the last token. -/
  problem : Option String
  handles : List (String × String) := []
  anchors : List Anchor := []
  /-- The number of aliases so far. -/
  aliases : Nat := 0
  /-- Aliases inside the node of their anchor, each with the number of that. -/
  inner : List (Nat × Nat) := []

namespace Compose

abbrev Step := StateT Compose (Except String)

def fail {α : Type} (problem : String) : Step α := fun _ => .error problem

def peek : Step Token := do
  let s ← get
  match s.tokens with
  | t :: _ => return t
  | [] => fail (s.problem.getD "did not find expected node content")

def advance : Step Unit := modify fun s => { s with tokens := s.tokens.drop 1 }

def longMark : List Char := "tag:yaml.org,2002:".toList

def shortTag (tag : String) : String :=
  match (longMark.isPrefixOf tag.toList : Bool) with
  | true => "!!" ++ String.ofList (tag.toList.drop longMark.length)
  | false => tag

def expand (handle suffix : String) : Step String := do
  if handle = "" then return suffix
  match (← get).handles.lookup handle with
  | some start => return start ++ suffix
  | none => fail "found undefined tag handle"

structure Properties where
  anchor : Option String := none
  tag : String := ""

/-- An optional tag, as long as none was read. -/
def tagPart : Step (Option String) := do
  match (← peek).kind with
  | .tag handle suffix =>
    advance
    return some (← expand handle suffix)
  | _ => return none

def anchorPart : Step (Option String) := do
  match (← peek).kind with
  | .anchor name =>
    advance
    return some name
  | _ => return none

def properties : Step Properties := do
  match ← anchorPart with
  | some name => return ⟨some name, (← tagPart).getD ""⟩
  | none =>
    match ← tagPart with
    | some tag => return ⟨← anchorPart, tag⟩
    | none => return {}

/-- Makes an anchor known; its node is still open. -/
def openAnchor (name : Option String) : Step Nat := do
  let s ← get
  let number := s.anchors.length
  if let some name := name then
    set { s with anchors := ⟨name, number, none⟩ :: s.anchors }
  return number

def closeAnchor (p : Properties) (number : Nat) (node : Node) : Step Node := do
  if p.anchor.isSome then
    modify fun s => { s with anchors := s.anchors.map fun a =>
      if a.number = number then { a with node := some node } else a }
  return node

/-- The alias to the last anchor of a name. -/
def aliasNode (name : String) (line : Nat) : Step Node := do
  let s ← get
  match s.anchors.find? (·.name == name) with
  | none => fail ("unknown anchor '" ++ name ++ "' referenced")
  | some a =>
    let number := s.aliases
    match a.node with
    | some target =>
      set { s with aliases := number + 1 }
      return .aliased name number target line
    | none =>
      set { s with aliases := number + 1, inner := (number, a.number) :: s.inner }
      return .cycle name number line

/-- The nodes that aliases inside them refer to. -/
def cycles (s : Compose) : List (Nat × Node) :=
  s.inner.filterMap fun (number, anchor) =>
    (s.anchors.find? (·.number == anchor)).bind fun a => a.node.map (number, ·)

def tagOr (p : Properties) (default : String) : String :=
  if p.tag = "" || p.tag = "!" then default else shortTag p.tag

def scalarNode (p : Properties) (plain : Bool) (text : String) (line : Nat) : Node :=
  if p.tag = "" || p.tag = "!" then
    if plain then .ofPlain text line else .scalar "!!str" text line
  else .scalar (shortTag p.tag) text line

mutual

/-- A node. In `block` position block collections may start; an `indentless` sequence is
one whose dashes stand at the column of the key above. -/
def node (block indentless : Bool) : (fuel : Nat) → Step Node
  | 0 => fail "exceeded max depth"
  | fuel + 1 => do
    let first ← peek
    match first.kind with
    | .aliased name =>
      advance
      aliasNode name first.line
    | _ =>
      let p ← properties
      let number ← openAnchor p.anchor
      let t ← peek
      let line := first.line
      let made ← match t.kind with
        | .scalar plain text => do
          advance
          pure (scalarNode p plain text line)
        | .flowSequenceStart => do
          advance
          let items ← flowItems true fuel
          pure (.sequence (tagOr p "!!seq") items line)
        | .flowMappingStart => do
          advance
          let entries ← flowEntries true fuel
          pure (.mapping (tagOr p "!!map") entries line)
        | .blockEntry =>
          if indentless then do
            let items ← indentlessItems fuel
            pure (.sequence (tagOr p "!!seq") items line)
          else bare p line
        | .blockSequenceStart =>
          if block then do
            advance
            let items ← blockItems fuel
            pure (.sequence (tagOr p "!!seq") items line)
          else bare p line
        | .blockMappingStart =>
          if block then do
            advance
            let entries ← blockEntries fuel
            pure (.mapping (tagOr p "!!map") entries line)
          else bare p line
        | _ => bare p line
      closeAnchor p number made

/-- A node of which only the anchor or tag is there. -/
def bare (p : Properties) (line : Nat) : Step Node :=
  if p.anchor.isSome || p.tag != "" then pure (scalarNode p true "" line)
  else fail "did not find expected node content"

/-- A node, or an empty place before one of the tokens that end it. -/
def nodeUnless (ends : List Token.Kind) (block indentless : Bool) (line : Nat) :
    (fuel : Nat) → Step Node
  | 0 => fail "exceeded max depth"
  | fuel + 1 => do
    if ends.contains (← peek).kind then return .empty line
    node block indentless fuel

def blockItems : (fuel : Nat) → Step (List Node)
  | 0 => fail "exceeded max depth"
  | fuel + 1 => do
    let t ← peek
    match t.kind with
    | .blockEntry =>
      advance
      let item ← nodeUnless [.blockEntry, .blockEnd] true false t.line fuel
      return item :: (← blockItems fuel)
    | .blockEnd =>
      advance
      return []
    | _ => fail "did not find expected '-' indicator"

def indentlessItems : (fuel : Nat) → Step (List Node)
  | 0 => fail "exceeded max depth"
  | fuel + 1 => do
    let t ← peek
    match t.kind with
    | .blockEntry =>
      advance
      let item ← nodeUnless [.blockEntry, .key, .value, .blockEnd] true false t.line fuel
      return item :: (← indentlessItems fuel)
    | _ => return []

def blockEntries : (fuel : Nat) → Step (List (Node × Node))
  | 0 => fail "exceeded max depth"
  | fuel + 1 => do
    let t ← peek
    match t.kind with
    | .key =>
      advance
      let key ← nodeUnless [.key, .value, .blockEnd] true true t.line fuel
      let value ← blockValue fuel
      return (key, value) :: (← blockEntries fuel)
    | .blockEnd =>
      advance
      return []
    | _ => fail "did not find expected key"

def blockValue : (fuel : Nat) → Step Node
  | 0 => fail "exceeded max depth"
  | fuel + 1 => do
    let t ← peek
    match t.kind with
    | .value =>
      advance
      nodeUnless [.key, .value, .blockEnd] true true t.line fuel
    | _ => return .empty t.line

def flowItems (first : Bool) : (fuel : Nat) → Step (List Node)
  | 0 => fail "exceeded max depth"
  | fuel + 1 => do
    if (← peek).kind = .flowSequenceEnd then
      advance
      return []
    unless first do
      if (← peek).kind = .flowEntry then advance
      else fail "did not find expected ',' or ']'"
    let t ← peek
    match t.kind with
    | .flowSequenceEnd =>
      advance
      return []
    | .key =>
      advance
      let entry ← flowPair fuel
      return .mapping "!!map" [entry] t.line :: (← flowItems false fuel)
    | _ =>
      let item ← node false false fuel
      return item :: (← flowItems false fuel)

/-- The one entry of a mapping that stands in a flow sequence without braces. Where the
key is empty the token in its place is passed over. -/
def flowPair : (fuel : Nat) → Step (Node × Node)
  | 0 => fail "exceeded max depth"
  | fuel + 1 => do
    let t ← peek
    let key ←
      if [Token.Kind.value, .flowEntry, .flowSequenceEnd].contains t.kind then do
        advance
        pure (Node.empty t.line)
      else node false false fuel
    let t ← peek
    if t.kind = .value then
      advance
      let next ← peek
      let value ← nodeUnless [.flowEntry, .flowSequenceEnd] false false next.line fuel
      return (key, value)
    return (key, .empty t.line)

def flowEntries (first : Bool) : (fuel : Nat) → Step (List (Node × Node))
  | 0 => fail "exceeded max depth"
  | fuel + 1 => do
    if (← peek).kind = .flowMappingEnd then
      advance
      return []
    unless first do
      if (← peek).kind = .flowEntry then advance
      else fail "did not find expected ',' or '\x7d'"
    match (← peek).kind with
    | .flowMappingEnd =>
      advance
      return []
    | .key =>
      advance
      let next ← peek
      let key ← nodeUnless [.value, .flowEntry, .flowMappingEnd] false false next.line fuel
      let t ← peek
      if t.kind = .value then
        advance
        let next ← peek
        let value ← nodeUnless [.flowEntry, .flowMappingEnd] false false next.line fuel
        return (key, value) :: (← flowEntries false fuel)
      return (key, .empty t.line) :: (← flowEntries false fuel)
    | _ =>
      let key ← node false false fuel
      let t ← peek
      return (key, .empty t.line) :: (← flowEntries false fuel)

end

def directives (versioned : Bool) : (fuel : Nat) → Step Unit
  | 0 => fail "exceeded max depth"
  | fuel + 1 => do
    match (← peek).kind with
    | .versionDirective major minor =>
      if versioned then fail "found duplicate %YAML directive"
      if major ≠ 1 || minor ≠ 1 then fail "found incompatible YAML document"
      advance
      directives true fuel
    | .tagDirective handle start =>
      if (← get).handles.any (·.1 == handle) then fail "found duplicate %TAG directive"
      modify fun s => { s with handles := (handle, start) :: s.handles }
      advance
      directives versioned fuel
    | _ => return

/-- Handles that need no directive. -/
def defaultHandles : List (String × String) := [("!", "!"), ("!!", String.ofList longMark)]

/-- Handles of directives first, then those that need none. -/
def addDefaults : Step Unit := modify fun s => { s with handles := s.handles ++ defaultHandles }

def content (fuel : Nat) : Step Node := do
  let t ← peek
  match t.kind with
  | .versionDirective _ _ => return .empty t.line
  | .tagDirective _ _ => return .empty t.line
  | .documentStart => return .empty t.line
  | .documentEnd => return .empty t.line
  | .streamEnd => return .empty t.line
  | _ => node true false fuel

/-- The first document, if the text has any content. -/
def document (fuel : Nat) : Step (Option Node) := do
  discard peek
  advance
  match (← peek).kind with
  | .streamEnd => return none
  | .versionDirective _ _ => explicit
  | .tagDirective _ _ => explicit
  | .documentStart => explicit
  | _ =>
    addDefaults
    let root ← node true false fuel
    discard peek
    return some root
where
  explicit : Step (Option Node) := do
    directives false fuel
    addDefaults
    if (← peek).kind ≠ .documentStart then fail "did not find expected <document start>"
    advance
    let root ← content fuel
    discard peek
    return some root

end Compose

def readDocument (bytes : List UInt8) : Except Error (Option Document) :=
  let tokens := Tokens.ofSource (.ofBytes bytes)
  let size := 4 * tokens.list.length + 4
  match Compose.document size { tokens := tokens.list, problem := tokens.problem } with
  | .error problem => .error (.malformed problem)
  | .ok (none, _) => .ok none
  | .ok (some root, s) =>
    let cycles := s.cycles
    .ok (some ⟨root, cycles, (cycles.length + 1) * size⟩)

end ScriptListing.Yaml
