import StockFlow.Proofs.Value.Hidden
import StockFlow.Sheet.Localization
/-!
# Values and what is shown for nodes

No step of the computation of values looks at what is shown for a node. A graph in another language is the
graph with other names shown, so its nodes agree with those of the graph in every field
(`Graph.forall₂_localize`), and it computes the same values (`Graph.settled_localize`).
-/

namespace StockFlow

/-- A node that is shown by another name. -/
def Node.relabel (shown : Node → Text) (n : Node) : Node := { n with displayName := shown n }

/-- A node agrees with itself when it is shown by another name. -/
lemma Node.agreesBut_relabel (shown : Node → Text) (n : Node) : (n.relabel shown).AgreesBut [] n where
  name := rfl
  incoming := rfl
  links := List.forall₂_same.mpr fun l _ => Link.AgreesBut.refl l
  field f _ := by cases f <;> rfl

namespace Graph

variable (g : Graph) (language separator : Text) (shown? : Text → Option Text)

/-- The nodes of a graph in a language are its nodes shown by other names. -/
lemma nodes_localize : (g.localize language separator shown?).nodes =
    g.nodes.map (Node.relabel fun n => (shown? n.name).getD n.displayName) := rfl

/-- A node of a graph in a language is found under its own name. -/
lemma node?_localize (name : Text) : (g.localize language separator shown?).node? name =
    (g.node? name).map (Node.relabel fun n => (shown? n.name).getD n.displayName) := by
  unfold node?
  rw [nodes_localize, List.find?_map]
  rfl

/-- In every language the nodes of a graph agree in every field. -/
lemma forall₂_localize : List.Forall₂ (Node.AgreesBut []) (g.localize language separator shown?).nodes
    g.nodes := by
  rw [nodes_localize, List.forall₂_map_left_iff]
  exact List.forall₂_same.mpr fun n _ => n.agreesBut_relabel _

/-- In every language the items of a graph are worth the same. -/
theorem settled_localize (r : Registry) :
    (g.localize language separator shown?).network.settled r = g.network.settled r := by
  have hresolver : (g.localize language separator shown?).resolver = g.resolver := rfl
  have hnetwork := network_agreesBut hresolver (g.forall₂_localize language separator shown?)
  exact hnetwork.settled_eq List.not_mem_nil r

end Graph

end StockFlow
