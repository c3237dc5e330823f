import StockFlow.Yaml.Schema
import StockFlow.Yaml.Token
/-!
# Nodes of YAML texts

What the tokens of a document describe: a table of nodes that refer to each other by number. An
alias is the number of the node of its anchor, so several nodes can have a part in common, and a
node can contain itself. `NodeTable.ofTokens?` accepts exactly one document; a text without any has
no node.
-/

namespace StockFlow.Yaml

/-- The number of a node. -/
abbrev NodeId := Nat

/-- What a node consists of. -/
inductive NodeBody where
  | scalar (text : Text)
  | sequence (items : List NodeId)
  | mapping (pairs : List (NodeId × NodeId))

/-- A node of a document. -/
structure Node where
  tag : Tag
  body : NodeBody

/-- The nodes of a document by number. -/
abbrev NodeTable := Array Node

namespace NodeTable

/-- The tag of a node. -/
def tagOf (nodes : NodeTable) (id : NodeId) : Tag := (nodes[id]?.map Node.tag).getD .unknown

/-- What a node consists of. -/
def bodyOf (nodes : NodeTable) (id : NodeId) : NodeBody :=
  (nodes[id]?.map Node.body).getD (.scalar [])

/-- The entries of a mapping. -/
def pairsOf (nodes : NodeTable) (id : NodeId) : List (NodeId × NodeId) :=
  match nodes.bodyOf id with
  | .mapping pairs => pairs
  | _ => []

/-- Whether a node is a mapping. -/
def isMapping (nodes : NodeTable) (id : NodeId) : Bool :=
  match nodes.bodyOf id with
  | .mapping _ => true
  | _ => false

/-- The table with another body for a node. -/
def setBody (nodes : NodeTable) (id : NodeId) (body : NodeBody) : NodeTable :=
  nodes.modify id fun node => { node with body }

/-- The table with another tag for a node. -/
def setTag (nodes : NodeTable) (id : NodeId) (tag : Tag) : NodeTable :=
  nodes.modify id fun node => { node with tag }

end NodeTable

/-- The nodes of a document, the node that the document is, and whether some node contains itself. -/
structure Composition where
  nodes : NodeTable
  root : NodeId
  knotted : Bool

/-! ## Reading nodes -/

/-- What nodes are read with: the expansions of tag handles, and the failure that ended the tokens
if one did. -/
structure NodeContext where
  handles : List (String × String) := [("!", "!"), ("!!", Tag.standard)]
  stop : Failure := invalid

/-- What is left to read, the nodes of the anchors met so far, the nodes read so far, the numbers of
the nodes that are being read, and whether one of those has been met inside itself. -/
structure NodeState where
  tokens : List Token
  anchors : List (String × NodeId) := []
  nodes : NodeTable := #[]
  unfinished : List NodeId := []
  knotted : Bool := false

/-- Computations that read nodes. -/
abbrev NodeReader := ReaderT NodeContext (StateT NodeState (Except Failure))

namespace NodeReader

/-- The next token. -/
def peek : NodeReader Token := do
  match (← get).tokens with
  | t :: _ => return t
  | [] => throw (← read).stop

/-- Passes over the next token. -/
def skip : NodeReader Unit :=
  modify fun s => { s with tokens := s.tokens.tail }

/-- The tag and the anchor in front of a node. -/
structure Properties where
  anchor : Option String := none
  tag : Option String := none

/-- The text of a tag with its handle expanded. -/
def expandTag (handle : Option String) (suffix : String) : NodeReader String := do
  match handle with
  | none => return suffix
  | some handle =>
    match (← read).handles.lookup handle with
    | some expansion => return expansion ++ suffix
    | none => throw invalid

/-- Reads the properties of a node, in either order. -/
def properties : NodeReader Properties := do
  match ← peek with
  | .anchor name =>
    skip
    match ← peek with
    | .tag handle suffix =>
      skip
      return { anchor := some name, tag := some (← expandTag handle suffix) }
    | _ => return { anchor := some name }
  | .tag handle suffix =>
    skip
    match ← peek with
    | .anchor name =>
      skip
      return { anchor := some name, tag := some (← expandTag handle suffix) }
    | _ => return { tag := some (← expandTag handle suffix) }
  | _ => return {}

/-- The kind of a scalar with the given tag, if any. The single exclamation mark asks for the
pattern of the text even between quotes. -/
def scalarTag (tag : Option String) (plain : Bool) (text : Text) : Tag :=
  match tag with
  | none => if plain then implicitTag text else .str
  | some "!" => implicitTag text
  | some tag => .ofText tag

/-- The kind of a collection with the given tag, if any. -/
def collectionTag (tag : Option String) (standard : Tag) : Tag :=
  match tag with
  | none => standard
  | some "!" => standard
  | some tag => .ofText tag

/-- Adds a node under its anchor, if it has one; no two nodes have the same anchor. -/
def add (anchor : Option String) (node : Node) : NodeReader NodeId := do
  let s ← get
  let id := s.nodes.size
  match anchor with
  | none => set { s with nodes := s.nodes.push node }
  | some name =>
    if s.anchors.any fun entry => entry.1 == name then throw invalid
    set { s with nodes := s.nodes.push node, anchors := (name, id) :: s.anchors }
  return id

/-- Adds a collection with the parts that are read next. Inside its parts the collection is known by
its anchor already. -/
def addCollection {α : Type} (anchor : Option String) (tag : Tag) (body : List α → NodeBody)
    (parts : NodeReader (List α)) : NodeReader NodeId := do
  let id ← add anchor ⟨tag, body []⟩
  modify fun s => { s with unfinished := id :: s.unfinished }
  let items ← parts
  modify fun s =>
    { s with nodes := s.nodes.setBody id (body items), unfinished := s.unfinished.tail }
  return id

/-- The node of an empty place. -/
def addEmpty : NodeReader NodeId := add none ⟨.null, .scalar []⟩

/-- The node that an alias stands for. -/
def resolve (name : String) : NodeReader NodeId := do
  let s ← get
  match s.anchors.lookup name with
  | some id =>
    set { s with knotted := s.knotted || s.unfinished.contains id }
    return id
  | none => throw invalid

/-- Whether a token ends an entry of a block mapping or comes before its value. -/
def endsBlockPart : Token → Bool
  | .key => true
  | .value => true
  | .blockEnd => true
  | _ => false

/-- Whether a token ends an item of a sequence inside brackets. -/
def endsFlowItem : Token → Bool
  | .flowEntry => true
  | .flowSequenceEnd => true
  | _ => false

/-- Whether a token ends an entry of a mapping inside braces. -/
def endsFlowPair : Token → Bool
  | .flowEntry => true
  | .flowMappingEnd => true
  | _ => false

mutual

/-- Reads a node. Block collections are allowed only in blocks, and a sequence at the column of its
mapping only as a value. -/
def node : (fuel : Nat) → (inBlock indentless : Bool) → NodeReader NodeId
  | 0, _, _ => throw invalid
  | fuel + 1, inBlock, indentless => do
    match ← peek with
    | .alias name =>
      skip
      resolve name
    | _ =>
      let p ← properties
      let seqTag := collectionTag p.tag .seq
      let mapTag := collectionTag p.tag .map
      match ← peek, inBlock, indentless with
      | .blockEntry, _, true => addCollection p.anchor seqTag .sequence (indentlessItems fuel)
      | .scalar text plain, _, _ =>
        skip
        add p.anchor ⟨scalarTag p.tag plain text, .scalar text⟩
      | .flowSequenceStart, _, _ =>
        skip
        addCollection p.anchor seqTag .sequence (flowItems fuel true)
      | .flowMappingStart, _, _ =>
        skip
        addCollection p.anchor mapTag .mapping (flowPairs fuel true)
      | .blockSequenceStart, true, _ =>
        skip
        addCollection p.anchor seqTag .sequence (blockItems fuel)
      | .blockMappingStart, true, _ =>
        skip
        addCollection p.anchor mapTag .mapping (blockPairs fuel)
      | _, _, _ =>
        if p.anchor.isSome ∨ p.tag.isSome then
          add p.anchor ⟨scalarTag p.tag true [], .scalar []⟩
        else throw invalid

/-- Reads a node unless the place is empty, which the next token tells. -/
def nodeUnless :
    (fuel : Nat) → (inBlock indentless : Bool) → (ends : Token → Bool) → NodeReader NodeId
  | 0, _, _, _ => throw invalid
  | fuel + 1, inBlock, indentless, ends => do
    if ends (← peek) then addEmpty else node fuel inBlock indentless

/-- Reads a value behind its mark; without the mark the place is empty. -/
def valueNode : (fuel : Nat) → (inBlock : Bool) → (ends : Token → Bool) → NodeReader NodeId
  | 0, _, _ => throw invalid
  | fuel + 1, inBlock, ends => do
    match ← peek with
    | .value =>
      skip
      nodeUnless fuel inBlock inBlock ends
    | _ => addEmpty

/-- Reads the items of a block sequence and its end. -/
def blockItems : (fuel : Nat) → NodeReader (List NodeId)
  | 0 => throw invalid
  | fuel + 1 => do
    match ← peek with
    | .blockEntry =>
      skip
      let item ← nodeUnless fuel true false fun t => t == .blockEntry || t == .blockEnd
      return item :: (← blockItems fuel)
    | .blockEnd =>
      skip
      return []
    | _ => throw invalid

/-- Reads the items of a sequence at the column of its mapping, up to the next entry of that. -/
def indentlessItems : (fuel : Nat) → NodeReader (List NodeId)
  | 0 => throw invalid
  | fuel + 1 => do
    match ← peek with
    | .blockEntry =>
      skip
      let item ← nodeUnless fuel true false fun t => t == .blockEntry || endsBlockPart t
      return item :: (← indentlessItems fuel)
    | _ => return []

/-- Reads the entries of a block mapping and its end. -/
def blockPairs : (fuel : Nat) → NodeReader (List (NodeId × NodeId))
  | 0 => throw invalid
  | fuel + 1 => do
    match ← peek with
    | .key =>
      skip
      let key ← nodeUnless fuel true true endsBlockPart
      let value ← valueNode fuel true endsBlockPart
      return (key, value) :: (← blockPairs fuel)
    | .blockEnd =>
      skip
      return []
    | _ => throw invalid

/-- Reads the items of a sequence between brackets. A key makes an item a mapping of one entry. -/
def flowItems : (fuel : Nat) → (first : Bool) → NodeReader (List NodeId)
  | 0, _ => throw invalid
  | fuel + 1, first => do
    match ← peek with
    | .flowSequenceEnd =>
      skip
      return []
    | t =>
      if !first then
        if t != .flowEntry then throw invalid
        skip
      match ← peek with
      | .flowSequenceEnd =>
        skip
        return []
      | .key =>
        skip
        let item ← addCollection none .map .mapping (flowPair fuel)
        return item :: (← flowItems fuel false)
      | _ =>
        let item ← node fuel false false
        return item :: (← flowItems fuel false)

/-- Reads the single entry of a mapping that is an item between brackets. -/
def flowPair : (fuel : Nat) → NodeReader (List (NodeId × NodeId))
  | 0 => throw invalid
  | fuel + 1 => do
    let key ← nodeUnless fuel false false fun t => t == .value || endsFlowItem t
    let value ← valueNode fuel false endsFlowItem
    let _ ← peek
    return [(key, value)]

/-- Reads the entries of a mapping between braces. -/
def flowPairs : (fuel : Nat) → (first : Bool) → NodeReader (List (NodeId × NodeId))
  | 0, _ => throw invalid
  | fuel + 1, first => do
    match ← peek with
    | .flowMappingEnd =>
      skip
      return []
    | t =>
      if !first then
        if t != .flowEntry then throw invalid
        skip
      match ← peek with
      | .flowMappingEnd =>
        skip
        return []
      | .key =>
        skip
        let key ← nodeUnless fuel false false fun t => t == .value || endsFlowPair t
        let value ← valueNode fuel false endsFlowPair
        return (key, value) :: (← flowPairs fuel false)
      | _ =>
        let key ← node fuel false false
        let value ← addEmpty
        return (key, value) :: (← flowPairs fuel false)

end

/-! ## Documents -/

/-- Takes a directive into account. The version may be given once and has to begin with one, and a
handle is given once. -/
def applyDirective (state : Bool × List (String × String)) :
    Directive → Except Failure (Bool × List (String × String))
  | .version major _ => if state.1 ∨ major ≠ 1 then .error invalid else .ok (true, state.2)
  | .tagHandle handle expansion =>
    if (state.2.lookup handle).isSome then .error invalid
    else .ok (state.1, state.2 ++ [(handle, expansion)])
  | .other => .ok state

/-- Reads the directives before a document, of which there are no more than given. -/
def directives : (most : Nat) → (Bool × List (String × String)) →
    NodeReader (List (String × String))
  | 0, state => return state.2
  | most + 1, state => do
    match ← peek with
    | .directive d =>
      skip
      directives most (← applyDirective state d)
    | _ => return state.2

/-- Whether a token leaves the place of a document empty. -/
def endsDocument : Token → Bool
  | .directive _ => true
  | .documentStart => true
  | .documentEnd => true
  | .streamEnd => true
  | _ => false

/-- Passes over the ends of documents, of which there are no more than given. -/
def skipEnds : (most : Nat) → NodeReader Unit
  | 0 => return ()
  | most + 1 => do
    match ← peek with
    | .documentEnd =>
      skip
      skipEnds most
    | _ => return ()

/-- Makes sure that a document is the last one. The directives of another one are still read. -/
def finish (most : Nat) : NodeReader Unit := do
  skipEnds most
  match ← peek with
  | .streamEnd => return ()
  | _ =>
    let _ ← directives most (false, [])
    let _ ← peek
    throw invalid

/-- Reads the only document, if there is one. -/
def document? (most : Nat) : NodeReader (Option NodeId) := do
  let fuel := 4 * most + 4
  match ← peek with
  | .streamEnd => return none
  | .directive _ | .documentStart =>
    let given ← directives most (false, [])
    match ← peek with
    | .documentStart =>
      skip
      let expand := fun (ctx : NodeContext) =>
        { ctx with
          handles := given ++ ctx.handles.filter fun (handle, _) => (given.lookup handle).isNone }
      let root ← withReader expand (nodeUnless fuel true false endsDocument)
      finish most
      return some root
    | _ => throw invalid
  | _ =>
    let root ← node fuel true false
    finish most
    return some root

end NodeReader

/-- The nodes of the document that the tokens describe, given the failure that ended them if one
did. -/
def Composition.ofTokens? (tokens : List Token) (failure? : Option Failure) :
    Except Failure (Option Composition) := do
  let ctx : NodeContext := { stop := failure?.getD invalid }
  let (root?, s) ← (NodeReader.document? tokens.length).run ctx |>.run { tokens }
  return root?.map fun root => { nodes := s.nodes, root, knotted := s.knotted }

end StockFlow.Yaml
