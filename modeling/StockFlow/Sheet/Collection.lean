import StockFlow.Graph.Basic
import StockFlow.Graph.Order
/-!
# Collections of node declarations

A collection holds the declarations of one variant of a sheet by name, in the order of their first
declaration. Declaring a name again adds its links to the first declaration and changes nothing
else. `Collection.toGraph` makes a node of every declaration and of every target that is not
declared, attaches each link to both of its ends, and brings the nodes into the order of the
depth-first walk.
-/

namespace StockFlow

/-- A text out of a value, which fails only for whole numbers that are too long to be written. -/
def Datum.displayed (d : Datum) : Except Failure Text :=
  match d.display? with
  | some s => .ok s
  | none => .error .badValue

/-- The form of a value inside a message. -/
def Datum.literalText (d : Datum) : Except Failure Text :=
  match d.literal? with
  | some s => .ok s
  | none => .error .badValue

/-- The parts of a value, none if it is not given. -/
def Datum.givenElements (d : Datum) : Except Failure (List Datum) :=
  if d.isTruthy then
    match d.elements? with
    | some items => .ok items
    | none => .error .wrongType
  else .ok []

/-! ## Declarations -/

/-- A declaration under its name. -/
structure Declared where
  name : Text
  declaration : Datum

/-- The entries of a declaration. -/
def Declared.fields (d : Declared) : Entries := d.declaration.fields?.getD []

/-- The entries of a declaration, which has to be a mapping. -/
def declaredFields (declaration : Datum) : Except Failure Entries :=
  match declaration.fields? with
  | some fields => .ok fields
  | none => .error .wrongType

/-- The name that a declaration gives. -/
def declaredName (declaration : Datum) : Except Failure Text := do
  match Entries.get (← declaredFields declaration) "name" with
  | .null => throw (.unnamedNode (← declaration.literalText))
  | name => name.displayed

/-- The links that a declaration lists. -/
def declaredLinks (fields : Entries) : Except Failure (List Datum) :=
  (Entries.get fields "links").givenElements

/-- The target of a declared link of a node. -/
def linkTarget (node : Text) (fields : Entries) : Except Failure Text :=
  match Entries.get fields "to" with
  | .null => .error (.untargetedLink node)
  | target => target.displayed

/-- A declared link of a node. -/
def declaredLink (node : Text) (link : Datum) : Except Failure Link := do
  let fields ← declaredFields link
  return { target := ← linkTarget node fields
           value := Entries.get fields "value"
           color := Entries.get fields "color"
           description := Entries.get fields "description" }

/-- The keys of a declaration that have a meaning of their own. -/
def reservedKeys : List Text := ["name", "description", "color", "value", "links"]

/-- The other keys of a declaration that are texts. -/
def extraFields (fields : Entries) : Entries :=
  fields.filter fun entry =>
    match entry.1 with
    | .text key => !reservedKeys.contains key
    | _ => false

/-- The key that no attribute of a node can have. -/
def forbiddenAttribute : Text := "self"

/-- A node before its links are attached. -/
structure Sketch where
  node : Node
  links : List Datum

/-- The node that is declared under a name. -/
def sketchNode (name : Text) (fields : Entries) : Except Failure Sketch := do
  let attributes := extraFields fields
  if (Entries.find? attributes (.text forbiddenAttribute)).isSome then throw .wrongType
  let links ← declaredLinks fields
  return { node :=
             { name
               displayName := name
               description := Entries.get fields "description"
               color := Entries.get fields "color"
               value := Entries.get fields "value"
               attributes
               outgoing := []
               incoming := [] }
           links }

/-- A node that is only known as a target. -/
def bareNode (name : Text) : Node :=
  { name
    displayName := name
    description := .null
    color := .null
    value := .null
    attributes := []
    outgoing := []
    incoming := [] }

/-! ## Collections -/

/-- The declarations of one variant and its suffix. -/
structure Collection where
  declarations : List Declared := []
  suffix : Text := ""

instance : Inhabited Collection := ⟨{}⟩

namespace Collection

/-- The declaration under a name. -/
def find? (c : Collection) (name : Text) : Option Declared :=
  c.declarations.find? fun d => d.name == name

/-- The declaration with further links behind its own. Where the declaration contains itself, it
contains itself with all of them. -/
def mergeLinks (declaration : Datum) (further : List Datum) : Except Failure Datum := do
  let (strands, outermost) := declaration.layer
  let links := Entries.get (outermost.fields?.getD []) "links"
  let own ← (links.inLayer strands).givenElements
  return declaration.editFields fun fields =>
    Entries.insert fields (.text "links") (.list (own ++ further))

/-- Adds a declaration. -/
def add (c : Collection) (declaration : Datum) : Except Failure Collection := do
  let name ← declaredName declaration
  match c.find? name with
  | none => return { c with declarations := c.declarations ++ [⟨name, declaration⟩] }
  | some existing =>
    let further ← declaredLinks (← declaredFields declaration)
    let merged ← mergeLinks existing.declaration further
    return { c with
             declarations := c.declarations.map fun d =>
               if d.name == name then { d with declaration := merged } else d }

/-- The declared nodes with their links attached at the source. -/
def declaredNodes (c : Collection) : Except Failure (List Node) := do
  let sketches ← c.declarations.mapM fun d => sketchNode d.name d.fields
  sketches.mapM fun s => do
    let outgoing ← s.links.mapM (declaredLink s.node.name)
    return { s.node with outgoing }

end Collection

/-- The targets of links that are not among the nodes, in the order of their first mention. -/
def undeclaredTargets (nodes : List Node) : List Text :=
  let names := nodes.map Node.name
  let targets := nodes.flatMap fun n => n.outgoing.map Link.target
  (targets.filter fun target => !names.contains target).eraseDups

/-- The identities of the links that enter a node, in the order of the nodes and of their links. -/
def incomingOf (nodes : List Node) (name : Text) : List LinkId :=
  nodes.flatMap fun n =>
    (n.linkIds.zip n.outgoing).filterMap fun (id, link) =>
      if link.target == name then some id else none

/-- Links by the names of the nodes that they enter. This is a search tree, so that links are sorted
out without looking at every link for every node. -/
inductive Entrances where
  | none
  | fork (before : Entrances) (name : Text) (ids : List LinkId) (after : Entrances)

namespace Entrances

/-- The links that enter the node of a name. -/
def idsAt (name : Text) : Entrances → List LinkId
  | none => []
  | fork before root ids after =>
    if name = root then ids
    else if name.precedes root then before.idsAt name
    else after.idsAt name

/-- Puts a link in front of those that enter the node of a name. -/
def put (name : Text) (id : LinkId) : Entrances → Entrances
  | none => fork none name [id] none
  | fork before root ids after =>
    if name = root then fork before root (id :: ids) after
    else if name.precedes root then fork (before.put name id) root ids after
    else fork before root ids (after.put name id)

/-- The links of nodes. -/
def ofNodes (nodes : List Node) : Entrances :=
  (nodes.flatMap fun n => n.linkIds.zip n.outgoing).foldr
    (fun (id, link) entrances => entrances.put link.target id) none

/-- What is put at a name is found there, and nowhere else. -/
theorem idsAt_put (name other : Text) (id : LinkId) (entrances : Entrances) :
    (entrances.put name id).idsAt other =
      if name = other then id :: entrances.idsAt other else entrances.idsAt other := by
  induction entrances with
  | none =>
    by_cases h : name = other
    · simp [put, idsAt, h]
    · simp [put, idsAt, h, Ne.symm h]
  | fork before root ids after ihBefore ihAfter =>
    unfold put
    by_cases hroot : name = root
    · subst hroot
      by_cases h : name = other
      · simp [idsAt, h]
      · simp [idsAt, h, Ne.symm h]
    · rw [if_neg hroot]
      -- the place for the name is looked for in the same way as the name is
      by_cases h : name = other
      · subst h
        split
        · next hbefore => simp [idsAt, hroot, hbefore, ihBefore]
        · next hbefore => simp [idsAt, hroot, hbefore, ihAfter]
      · split
        · simp [idsAt, ihBefore, h]
        · simp [idsAt, ihAfter, h]

/-- The links that enter a node are found under its name. -/
theorem idsAt_ofNodes (nodes : List Node) (name : Text) :
    (ofNodes nodes).idsAt name = incomingOf nodes name := by
  unfold ofNodes incomingOf
  rw [← List.filterMap_flatMap]
  generalize nodes.flatMap (fun n => n.linkIds.zip n.outgoing) = entries
  induction entries with
  | nil => rfl
  | cons entry entries ih =>
    rw [List.foldr_cons, idsAt_put, ih, List.filterMap_cons]
    by_cases h : entry.2.target = name
    · simp [h]
    · simp [h]

end Entrances

/-- Attaches every link at its target. -/
def attachIncoming (nodes : List Node) : List Node :=
  let entrances := Entrances.ofNodes nodes
  nodes.map fun n => { n with incoming := entrances.idsAt n.name }

/-- A node learns of the links that enter it, and everything else about it stays. -/
theorem attachIncoming_eq (nodes : List Node) :
    attachIncoming nodes = nodes.map fun n => { n with incoming := incomingOf nodes n.name } := by
  unfold attachIncoming
  simp only [Entrances.idsAt_ofNodes]

/-- The targets of the links of a node. -/
def targetsOf (nodes : List Node) (name : Text) : List Text :=
  match nodes.find? (fun n => n.name == name) with
  | some n => n.outgoing.map Link.target
  | none => []

/-- The nodes in the order of the walk along their links. -/
def orderNodes (nodes : List Node) : Except Failure (List Node) := do
  let order ← visitOrder (nodes.map Node.name) (targetsOf nodes)
  return order.filterMap fun name => nodes.find? fun n => n.name == name

/-- The graph of a collection. -/
def Collection.toGraph (c : Collection) (resolver : Option Resolver) : Except Failure Graph := do
  let declared ← c.declaredNodes
  let nodes ← orderNodes
    (attachIncoming (declared ++ (undeclaredTargets declared).map bareNode))
  return { nodes, suffix := c.suffix, resolver }

end StockFlow
