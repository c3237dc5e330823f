import StockFlow.Yaml.Atom
import StockFlow.Yaml.Merge
/-!
# Values of YAML texts

The value that a document stands for. Every node has one value, however many aliases stand for it.
Scalars are read when they are met, and collections wait for their turn: first the document itself,
then the collections among its parts, and so on in the order of depth. When several parts of a
document have no value, the failure is that of the first one in this order. A mapping carries out its
merge keys when its turn comes. A key that occurs twice keeps its first place and its last value.
-/

namespace StockFlow.Yaml

/-! ## Values that refer to nodes -/

/-- An atom as a key. What is not a number equals nothing but itself, and `origin` is the node that
it came from, or none if it came from the word for it, which always stands for the same one. -/
structure Key where
  atom : Atom
  origin : Option NodeId := none

/-- Whether two atoms are the same key of a mapping. -/
def Key.same (a b : Key) : Bool :=
  match a.atom, b.atom with
  | .float .nan, .float .nan => a.origin == b.origin
  | x, y => x.sameKey y

/-- A value whose parts are other values, by number. The value of a node has the number of the node,
and the pairs, which are values without a node, have the numbers after those. -/
inductive Content where
  | atom (key : Key)
  | list (items : List NodeId)
  | map (entries : List (Key × NodeId))
  | set (elements : List Key)
  | pair (first second : NodeId)

/-- The numbers of the parts of a value. -/
def Content.parts : Content → List NodeId
  | .atom _ => []
  | .list items => items
  | .map entries => entries.map Prod.snd
  | .set _ => []
  | .pair first second => [first, second]

/-- Sets the value under a key. A key that is present keeps its place and its spelling. -/
def setKey {α : Type} : List (Key × α) → Key → α → List (Key × α)
  | [], key, value => [(key, value)]
  | (k, v) :: rest, key, value =>
    if k.same key then (k, value) :: rest else (k, v) :: setKey rest key value

/-! ## Evaluation -/

/-- The nodes of a document, the values of those that have been met and of pairs, and the collections
that wait for their turn, the latest first. -/
structure Evaluation where
  nodes : NodeTable
  contents : Array (Option Content)
  waiting : List NodeId := []

/-- Computations that find the values of nodes. -/
abbrev Evaluating := StateT Evaluation (Except Failure)

namespace Evaluation

/-- The value of a node, if it has been met. -/
def content? (e : Evaluation) (id : NodeId) : Option Content := e.contents[id]?.join

/-- The text of a node. That of a mapping is the text of its default value, which may be a mapping in
turn; the depth bounds how often. -/
def textOf (nodes : NodeTable) : (depth : Nat) → NodeId → Except Failure Text
  | 0, _ => .error .exhausted
  | depth + 1, id =>
    match nodes.bodyOf id with
    | .scalar text => .ok text
    | .sequence _ => .error invalid
    | .mapping pairs =>
      match pairs.find? fun (key, _) => nodes.tagOf key = .value with
      | some (_, value) => textOf nodes depth value
      | none => .error invalid

/-- The atom of a node of a kind. A date has to be written as a scalar. -/
def atomOf (nodes : NodeTable) (tag : Tag) (id : NodeId) : Except Failure Key := do
  match tag with
  | .null | .bool | .int | .float | .timestamp | .binary | .str =>
    let text ← textOf nodes (nodes.size + 1) id
    if tag = .timestamp ∧ nodes.isMapping id then throw .wrongType
    let atom ← atomValue tag text
    return { atom, origin := if isNanWord text then none else some id }
  | _ => throw invalid

/-- The value of a collection of a kind before its parts are known. -/
def emptyContent : Tag → Content
  | .map => .map []
  | .set => .set []
  | _ => .list []

/-- Sets the value of a node. -/
def setContent (id : NodeId) (content : Content) : Evaluating Unit :=
  modify fun e => { e with contents := e.contents.setIfInBounds id (some content) }

/-- Meets a node: an atom has its value at once, and a collection waits for its turn. -/
def meet (id : NodeId) : Evaluating Unit := do
  let e ← get
  if (e.content? id).isNone then
    let tag := e.nodes.tagOf id
    if tag.isCollection then
      setContent id (emptyContent tag)
      modify fun e => { e with waiting := id :: e.waiting }
    else setContent id (.atom (← atomOf e.nodes tag id))

/-- Meets a key, which has to be an atom. -/
def meetKey (id : NodeId) : Evaluating Key := do
  meet id
  match (← get).content? id with
  | some (.atom key) => return key
  | _ => throw invalid

/-- Changes the nodes. -/
def editNodes (edit : NodeEdit Unit) : Evaluating Unit := do
  let e ← get
  let (_, nodes) ← edit.run e.nodes
  set { e with nodes }

/-- The entries of a mapping with its merge keys carried out. -/
def entriesOf (id : NodeId) : Evaluating (List (Key × NodeId)) := do
  if !(← get).nodes.isMapping id then throw invalid
  editNodes (NodeTable.flatten id)
  ((← get).nodes.pairsOf id).foldlM (fun entries (keyId, valueId) => do
    let key ← meetKey keyId
    meet valueId
    return setKey entries key valueId) []

/-- The items of a sequence. -/
def itemsOf (id : NodeId) : Evaluating (List NodeId) := do
  match (← get).nodes.bodyOf id with
  | .sequence items => return items
  | _ => throw invalid

/-- Adds a pair to the values and gives its number. -/
def addPair (first second : NodeId) : Evaluating NodeId := do
  let e ← get
  set { e with contents := e.contents.push (some (.pair first second)) }
  return e.contents.size

/-- The pair that stands for a mapping of a single entry. -/
def pairOf (id : NodeId) : Evaluating NodeId := do
  match (← get).nodes.bodyOf id with
  | .mapping [(first, second)] =>
    meet first
    meet second
    addPair first second
  | _ => throw invalid

/-- Finds the value of a collection whose turn has come. -/
def complete (id : NodeId) : Evaluating Unit := do
  match (← get).nodes.tagOf id with
  | .map => setContent id (.map (← entriesOf id))
  | .set => setContent id (.set ((← entriesOf id).map Prod.fst))
  | .omap | .pairs => setContent id (.list (← (← itemsOf id).mapM pairOf))
  | _ =>
    let items ← itemsOf id
    items.forM meet
    setContent id (.list items)

/-- Finds the values of all collections that wait, and of those that they make wait. No path from the
document to a node is longer than there are nodes, which bounds the depth. -/
def completeAll : (depth : Nat) → Evaluating Unit
  | 0 => return ()
  | depth + 1 => do
    let turn := (← get).waiting.reverse
    if turn.isEmpty then return ()
    modify fun e => { e with waiting := [] }
    turn.forM complete
    completeAll depth

end Evaluation

/-- The values of all nodes that are parts of a document, and of the pairs among its parts. -/
def Composition.contents (c : Composition) : Except Failure (Array (Option Content)) := do
  let start : Evaluation := { nodes := c.nodes, contents := Array.replicate c.nodes.size none }
  let (_, e) ← (do Evaluation.meet c.root; Evaluation.completeAll (c.nodes.size + 1)).run start
  return e.contents

/-! ## Data -/

namespace Content

/-- The value with the values of its parts put in. -/
def toDatum {m : Type → Type} [Monad m] (part : NodeId → m Datum) : Content → m Datum
  | .atom key => return .atom key.atom
  | .list items => do return .list (← items.mapM part)
  | .map entries => do
    return .map (← entries.mapM fun (key, id) => do return (key.atom, ← part id))
  | .set elements => return .set (elements.map Key.atom)
  | .pair first second => return .pair (← part first) (← part second)

/-- The numbers of the parts of values, at any depth, besides those found already. -/
def reach (contents : Array (Option Content)) :
    (fuel : Nat) → List NodeId → Array Bool → Array Bool
  | 0, _, found => found
  | _, [], found => found
  | fuel + 1, id :: rest, found =>
    if found.getD id true then reach contents fuel rest found
    else
      let parts := ((contents[id]?.join).map Content.parts).getD []
      reach contents fuel (parts ++ rest) (found.setIfInBounds id true)

/-- The numbers of the values that contain themselves. -/
def knotted (contents : Array (Option Content)) : List NodeId :=
  let partsOf := fun (id : NodeId) => ((contents[id]?.join).map Content.parts).getD []
  let ids := List.range contents.size
  let fuel := ids.foldl (fun total id => total + (partsOf id).length + 1) 1
  ids.filter fun id =>
    let parts := partsOf id
    let found := reach contents (fuel + parts.length) parts (Array.replicate contents.size false)
    found.getD id false

/-- The value of a number, once for all. Of the values that contain themselves, it is the strand in
their place. A path that meets none of these is no longer than there are values, which bounds the
depth. -/
def datumOf (contents : Array (Option Content)) (strands : List NodeId) :
    (depth : Nat) → NodeId → StateM (Array (Option Datum)) Datum
  | 0, _ => return .null
  | depth + 1, id => do
    match strands.idxOf? id, (← get)[id]?.join with
    | some place, _ => return .strand place
    | none, some d => return d
    | none, none =>
      let content := (contents[id]?.join).getD (.atom ⟨.null, none⟩)
      let d ← content.toDatum (datumOf contents strands depth)
      modify fun known => known.setIfInBounds id (some d)
      return d

end Content

/-- The value of a document. -/
def Composition.value (c : Composition) : Except Failure Datum := do
  let contents ← c.contents
  let strandIds := if c.knotted then Content.knotted contents else []
  let part := Content.datumOf contents strandIds (contents.size + 1)
  let values : StateM (Array (Option Datum)) (List Datum × Datum) := do
    let strands ← strandIds.mapM fun id =>
      ((contents[id]?.join).getD (.atom ⟨.null, none⟩)).toDatum part
    return (strands, ← part c.root)
  let (strands, d) := (values.run (Array.replicate contents.size none)).1
  return if strands.isEmpty then d else d.close strands

/-- The value of a YAML text. A text without a document is the absent value. -/
def parse (text : Text) : Except Failure Datum := do
  let (tokens, failure?) := Token.ofText text
  match ← Composition.ofTokens? tokens failure? with
  | none => return .null
  | some composition => composition.value

end StockFlow.Yaml
