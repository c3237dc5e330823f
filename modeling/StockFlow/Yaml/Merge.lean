import StockFlow.Yaml.Node
/-!
# Merge keys

A mapping with a merge key takes over the entries of another mapping, or of several, in front of its
own. `NodeTable.flatten` carries out the merge keys of a mapping, after those of the mappings that it
takes over, and turns the keys that are marks for a default value into texts. It changes the table,
and so what other nodes find there: a mapping that merges itself finds the entries that are left.
-/

namespace StockFlow.Yaml

/-- Computations that change the nodes of a document. -/
abbrev NodeEdit := StateT NodeTable (Except Failure)

namespace NodeTable

/-- The mappings that the value of a merge key stands for: itself, or the items of a sequence. -/
def mergeSources (nodes : NodeTable) (id : NodeId) : Except Failure (List NodeId) :=
  match nodes.bodyOf id with
  | .mapping _ => .ok [id]
  | .sequence items => if items.all nodes.isMapping then .ok items else .error invalid
  | .scalar _ => .error invalid

/-- Puts entries in front of those of a mapping. -/
def prepend (nodes : NodeTable) (id : NodeId) (pairs : List (NodeId × NodeId)) : NodeTable :=
  if pairs.isEmpty then nodes else nodes.setBody id (.mapping (pairs ++ nodes.pairsOf id))

/-- Turns the keys of a mapping that are marks for a default value into texts. -/
def spellDefaults (nodes : NodeTable) (id : NodeId) : NodeTable :=
  (nodes.pairsOf id).foldl (fun nodes (key, _) =>
    if nodes.tagOf key = .value then nodes.setTag key .str else nodes) nodes

/-- The number of entries with a merge key. -/
def mergeCount (nodes : NodeTable) : Nat :=
  nodes.foldl (fun count node =>
    match node.body with
    | .mapping pairs => count + (pairs.filter fun (key, _) => nodes.tagOf key = .merge).length
    | _ => count) 0

/-- Removes the merge keys of a mapping and gives the entries that they take over. Every step removes
a merge key, which bounds the depth. -/
def takeMerged : (depth : Nat) → NodeId → NodeEdit (List (NodeId × NodeId))
  | 0, _ => return []
  | depth + 1, id => do
    let nodes ← get
    let pairs := nodes.pairsOf id
    match pairs.findIdx? fun (key, _) => nodes.tagOf key = .merge with
    | none =>
      set (nodes.spellDefaults id)
      return []
    | some position =>
      let merged := (pairs[position]?.map Prod.snd).getD id
      set (nodes.setBody id (.mapping (pairs.eraseIdx position)))
      let sources ← (← get).mergeSources merged
      let taken ← sources.mapM fun source => do
        let inner ← takeMerged depth source
        modify fun nodes => nodes.prepend source inner
        return (← get).pairsOf source
      let further ← takeMerged depth id
      return taken.reverse.flatten ++ further

/-- Carries out the merge keys of a mapping. -/
def flatten (id : NodeId) : NodeEdit Unit := do
  let taken ← takeMerged ((← get).mergeCount + 1) id
  modify fun nodes => nodes.prepend id taken

end NodeTable

end StockFlow.Yaml
