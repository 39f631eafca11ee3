import Componentry.Tree.Basic

/-!
# Pre-order

The nodes of a tree were defined by an agenda. Here they are the nodes met by recursion on the tree:
each node, then the nodes in its properties, in order. Facts about all nodes are proved along this
recursion.

## Main definitions

* `Property.nodes`, `Node.nodes` list the nodes in a property, and at or below a node

## Main results

* `Tree.nodes_eq` — the agenda yields exactly the nodes of the recursion
* `Tree.preorder_eq` — the numbers in pre-order are those of `Node.indices`
-/

namespace Componentry

variable {ε : Type}

namespace Property

mutual

/-- The nodes in a property: each node before those in its properties, in order. -/
def nodes : Property ε → List (Node ε)
  | nested _ node properties => ⟨node, properties⟩ :: nodesAll properties
  | scalar _ _ | list _ _ | reference _ _ => []

/-- The nodes in a list of properties. -/
def nodesAll : List (Property ε) → List (Node ε)
  | [] => []
  | p :: rest => p.nodes ++ nodesAll rest

end

mutual

theorem map_index_nodes : ∀ p : Property ε, p.nodes.map (·.info.index) = p.indices
  | scalar _ _ | list _ _ | reference _ _ => rfl
  | nested _ _ properties => by simp [nodes, indices, map_index_nodesAll properties]

theorem map_index_nodesAll :
    ∀ ps : List (Property ε), (nodesAll ps).map (·.info.index) = indicesAll ps
  | [] => rfl
  | p :: rest => by simp [nodesAll, indicesAll, map_index_nodes p, map_index_nodesAll rest]

end

end Property

namespace Node

/-- The node and all nodes below it, in pre-order. -/
def nodes (n : Node ε) : List (Node ε) := n :: Property.nodesAll n.properties

theorem map_index_nodes (n : Node ε) : n.nodes.map (·.info.index) = n.indices := by
  simp [nodes, indices, Property.map_index_nodesAll]

end Node

/-- The nodes in properties are those at or below the nodes that are their values. -/
theorem Property.nodesAll_eq_flatMap (ps : List (Property ε)) :
    nodesAll ps = (ps.filterMap child?).flatMap Node.nodes := by
  induction ps with
  | nil => rfl
  | cons p rest ih =>
    cases p <;> simp [nodesAll, nodes, List.filterMap_cons, child?, Node.nodes, ih]

namespace Tree

/-- An agenda is worked off in pre-order. -/
theorem visit_eq_take (n : Nat) (agenda : List (Node ε)) :
    visit n agenda = (agenda.flatMap Node.nodes).take n := by
  induction n generalizing agenda with
  | zero => simp [visit]
  | succ n ih =>
    cases agenda with
    | nil => simp [visit]
    | cons node agenda =>
      have children : Property.nodesAll node.properties = node.children.flatMap Node.nodes :=
        Property.nodesAll_eq_flatMap node.properties
      simp [visit, ih, Node.nodes, children]

/-- All nodes of a tree, by recursion on the tree. -/
theorem nodes_eq (t : Tree ε) : t.nodes = t.root.nodes := by
  have length : t.root.nodes.length = t.size := by
    rw [size, ← t.root.map_index_nodes, List.length_map]
  rw [nodes, visit_eq_take, ← length]
  simp

/-- The numbers of the nodes in pre-order, by recursion on the tree. -/
theorem preorder_eq (t : Tree ε) : t.preorder = t.root.indices := by
  rw [preorder, nodes_eq, Node.map_index_nodes]

theorem length_nodes (t : Tree ε) : t.nodes.length = t.size := by
  rw [size, ← preorder_eq, preorder, List.length_map]

end Tree

end Componentry
