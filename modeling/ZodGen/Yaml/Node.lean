import ZodGen.Json.Basic
import ZodGen.Yaml.Token

/-!
# Nodes of a YAML document

`Document.ofTokens?` builds the nodes of the one document in a text. An alias keeps the number of
its anchor. An anchor takes as its number how many names are anchored so far, so a name that is
anchored again shares its number with the next new name, and the node that starts last has the
number.
-/

namespace ZodGen.Yaml

inductive Node where
  | scalar (tag : Option String) (isPlain : Bool) (text : String)
  | sequence (tag : Option String) (items : List Node)
  | mapping (tag : Option String) (pairs : List (Node × Node))
  | aliasOf (number : Nat)

/-- A node that aliases may stand for. -/
structure Anchored where
  number : Nat
  /-- How many nodes start before it. -/
  start : Nat
  node : Node

/-- How far a document is read. -/
structure Reading where
  tokens : List Token
  handles : List (String × String)
  /-- Numbers of anchored names. -/
  anchors : List (String × Nat) := []
  anchored : List Anchored := []
  /-- How many nodes have started. -/
  started : Nat := 0
  /-- How many marks make up the document: one for each scalar and alias, two for each
  collection. -/
  size : Nat := 0

abbrev Reader := StateT Reading Option

namespace Reader

def peek : Reader Token := do
  match (← get).tokens with
  | t :: _ => return t
  | [] => return .streamEnd

def skip : Reader Unit := modify fun r => { r with tokens := r.tokens.tail }

/-- Anchor and tag of a node. -/
structure Properties where
  anchor : Option String := none
  tag : Option Tag := none

/-- Anchor and tag, in either order. -/
def properties : Reader Properties := do
  match ← peek with
  | .anchor name =>
    skip
    match ← peek with
    | .tag t => skip; return ⟨some name, some t⟩
    | _ => return ⟨some name, none⟩
  | .tag t =>
    skip
    match ← peek with
    | .anchor name => skip; return ⟨some name, some t⟩
    | _ => return ⟨none, some t⟩
  | _ => return {}

/-- A tag with what its handle stands for. -/
def fullTag (tag : Option Tag) : Reader (Option String) := do
  match tag with
  | none => return none
  | some t =>
    if t.handle.isEmpty then return some t.suffix
    match Assoc.get? t.handle (← get).handles with
    | some lead => return some (lead ++ t.suffix)
    | none => failure

/-- Starts a node: its place among the nodes, and its number if it has an anchor. -/
def start (anchor : Option String) : Reader (Nat × Option Nat) := do
  let r ← get
  match anchor with
  | none =>
    set { r with started := r.started + 1 }
    return (r.started, none)
  | some name =>
    let number := r.anchors.length
    set { r with started := r.started + 1, anchors := Assoc.set name number r.anchors }
    return (r.started, some number)

/-- Ends a node of that many marks. -/
def finish (place : Nat × Option Nat) (size : Nat) (node : Node) : Reader Node := do
  modify fun r => { r with size := r.size + size }
  match place with
  | (start, some number) =>
    modify fun r => { r with anchored := ⟨number, start, node⟩ :: r.anchored }
  | (_, none) => pure ()
  return node

/-- A scalar without text. -/
def empty (p : Properties) : Reader Node := do
  let tag ← fullTag p.tag
  finish (← start p.anchor) 1 (.scalar tag true "")

/-- An alias by the name of its anchor. -/
def aliasNode (name : String) : Reader Node := do
  match Assoc.get? name (← get).anchors with
  | some number =>
    modify fun r => { r with started := r.started + 1, size := r.size + 1 }
    return .aliasOf number
  | none => failure

def isKeyOrEnd : Token → Bool
  | .key => true
  | .value => true
  | .blockEnd => true
  | _ => false

/-- A collection: `items` reads what is in it. -/
def collection {α : Type} (p : Properties) (make : Option String → α → Node) (items : Reader α) :
    Reader Node := do
  let tag ← fullTag p.tag
  let place ← start p.anchor
  let found ← items
  finish place 2 (make tag found)

mutual

/-- A node. `inBlock` allows block collections, `indentless` allows a sequence at the indentation of
the mapping around it. -/
def node (inBlock indentless : Bool) : Nat → Reader Node
  | 0 => failure
  | n + 1 => do
    if let .aliasOf name ← peek then
      skip
      return ← aliasNode name
    let p ← properties
    match ← peek, inBlock, indentless with
    | .blockEntry, _, true => collection p .sequence (indentlessItems n)
    | .scalar isPlain text, _, _ =>
      skip
      let tag ← fullTag p.tag
      -- One mark alone asks for nothing.
      let tag := tag.filter (· != "!")
      finish (← start p.anchor) 1 (.scalar tag isPlain text)
    | .flowSequenceStart, _, _ => skip; collection p .sequence (flowItems true n)
    | .flowMappingStart, _, _ => skip; collection p .mapping (flowPairs true n)
    | .blockSequenceStart, true, _ => skip; collection p .sequence (blockItems n)
    | .blockMappingStart, true, _ => skip; collection p .mapping (blockPairs n)
    | _, _, _ => if p.anchor.isSome || p.tag.isSome then empty p else failure

/-- The items of a block sequence up to its end. -/
def blockItems : Nat → Reader (List Node)
  | 0 => failure
  | n + 1 => do
    match ← peek with
    | .blockEntry =>
      skip
      let item ← match ← peek with
        | .blockEntry => empty {}
        | .blockEnd => empty {}
        | _ => node true false n
      return item :: (← blockItems n)
    | .blockEnd => skip; return []
    | _ => failure

/-- The items of a sequence at the indentation of the mapping around it. -/
def indentlessItems : Nat → Reader (List Node)
  | 0 => failure
  | n + 1 => do
    match ← peek with
    | .blockEntry =>
      skip
      let item ← match ← peek with
        | .blockEntry => empty {}
        | t => if isKeyOrEnd t then empty {} else node true false n
      return item :: (← indentlessItems n)
    | _ => return []

/-- The pairs of a block mapping up to its end. -/
def blockPairs : Nat → Reader (List (Node × Node))
  | 0 => failure
  | n + 1 => do
    match ← peek with
    | .key =>
      skip
      let key ← if isKeyOrEnd (← peek) then empty {} else node true true n
      let value ← blockValue n
      return (key, value) :: (← blockPairs n)
    | .blockEnd => skip; return []
    | _ => failure

/-- The value of a pair in a block mapping. -/
def blockValue : Nat → Reader Node
  | 0 => failure
  | n + 1 => do
    match ← peek with
    | .value =>
      skip
      if isKeyOrEnd (← peek) then empty {} else node true true n
    | _ => empty {}

/-- The items of a flow sequence up to its end. -/
def flowItems (isFirst : Bool) : Nat → Reader (List Node)
  | 0 => failure
  | n + 1 => do
    match ← peek, isFirst with
    | .flowSequenceEnd, _ => skip; return []
    | .flowEntry, false => skip
    | _, true => pure ()
    | _, false => failure
    match ← peek with
    | .flowSequenceEnd => skip; return []
    | .key =>
      skip
      let item ← collection {} .mapping (do return [← singlePair n])
      return item :: (← flowItems false n)
    | _ =>
      let item ← node false false n
      return item :: (← flowItems false n)

/-- A pair that stands in a flow sequence, from behind its key mark. A token that ends an empty key
is passed with it. -/
def singlePair : Nat → Reader (Node × Node)
  | 0 => failure
  | n + 1 => do
    let key ← match ← peek with
      | .value => skip; empty {}
      | .flowEntry => skip; empty {}
      | .flowSequenceEnd => skip; empty {}
      | _ => node false false n
    match ← peek with
    | .value =>
      skip
      match ← peek with
      | .flowEntry => return (key, ← empty {})
      | .flowSequenceEnd => return (key, ← empty {})
      | _ => return (key, ← node false false n)
    | _ => return (key, ← empty {})

/-- The pairs of a flow mapping up to its end. -/
def flowPairs (isFirst : Bool) : Nat → Reader (List (Node × Node))
  | 0 => failure
  | n + 1 => do
    match ← peek, isFirst with
    | .flowMappingEnd, _ => skip; return []
    | .flowEntry, false => skip
    | _, true => pure ()
    | _, false => failure
    match ← peek with
    | .flowMappingEnd => skip; return []
    | .key =>
      skip
      let key ← match ← peek with
        | .value => empty {}
        | .flowEntry => empty {}
        | .flowMappingEnd => empty {}
        | _ => node false false n
      let value ← flowValue n
      return (key, value) :: (← flowPairs false n)
    | _ =>
      let key ← node false false n
      let value ← empty {}
      return (key, value) :: (← flowPairs false n)

/-- The value of a pair in a flow mapping. -/
def flowValue : Nat → Reader Node
  | 0 => failure
  | n + 1 => do
    match ← peek with
    | .value =>
      skip
      match ← peek with
      | .flowEntry => empty {}
      | .flowMappingEnd => empty {}
      | _ => node false false n
    | _ => empty {}

end

/-! ## Documents -/

/-- Directives in front of a document. No handle and no version may be given twice. -/
def directives (versioned : Bool) : Nat → Reader Unit
  | 0 => failure
  | n + 1 => do
    match ← peek with
    | .directive (.version major minor) =>
      if versioned || major != 1 || (minor != 1 && minor != 2) then failure
      skip
      directives true n
    | .directive (.tag handle lead) =>
      let r ← get
      if (Assoc.get? handle r.handles).isSome then failure
      set { r with handles := (handle, lead) :: r.handles }
      skip
      directives versioned n
    | _ => return

/-- Handles that every document has, behind those it gives itself. -/
def defaultHandles : List (String × String) := [("!", "!"), ("!!", "tag:yaml.org,2002:")]

/-- Marks that end documents, down to the end of the text. -/
def documentEnds : Nat → Reader Unit
  | 0 => failure
  | n + 1 => do
    match ← peek with
    | .documentEnd => skip; documentEnds n
    | .streamEnd => return
    | _ => failure

/-- The node of a document behind `---`. -/
def content (n : Nat) : Reader Node := do
  match ← peek with
  | .documentStart => empty {}
  | .documentEnd => empty {}
  | .streamEnd => empty {}
  | .directive _ => empty {}
  | _ => node true false n

/-- The one document of a text; nothing if the text is empty. -/
def document (n : Nat) : Reader (Option Node) := do
  match ← peek with
  | .streamEnd => return none
  | t =>
    let isExplicit := match t with
      | .directive _ => true
      | .documentStart => true
      | _ => false
    if isExplicit then directives false n
    modify fun r => { r with handles := r.handles ++ defaultHandles }
    let root ←
      if isExplicit then do
        match ← peek with
        | .documentStart => skip; content n
        | _ => failure
      else node true false n
    documentEnds n
    return some root

end Reader

/-- A document: its root, the anchored nodes, and how many marks it is made of. -/
structure Document where
  root : Option Node
  anchored : List Anchored
  size : Nat

/-- The node that an alias stands for: of those with its number the one that starts last. -/
def Document.find? (d : Document) (number : Nat) : Option Node :=
  let found := d.anchored.filter (·.number == number)
  (found.foldl (fun best a => match best with
    | some (b : Anchored) => if b.start < a.start then some a else some b
    | none => some a) none).map (·.node)

def Document.ofTokens? (tokens : List Token) : Option Document := do
  let (root, r) ← (Reader.document (4 * tokens.length + 16)).run { tokens, handles := [] }
  some ⟨root, r.anchored, r.size⟩

end ZodGen.Yaml
