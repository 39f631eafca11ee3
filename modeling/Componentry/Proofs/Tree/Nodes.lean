import Componentry.Proofs.Tree.Building
import Componentry.Proofs.Tree.Preorder
import Mathlib.Data.List.Nodup

/-!
# Nodes of a tree

Where the nodes of a tree are and how they are found again. The nodes below a node stand together in
pre-order, every node but the root is a child of another, and a number finds the one node that has
it. A change that only adds properties to a node cannot be seen at any other node: the others keep
their own records, in which a child is there with its number, but not with what is below it.

## Main definitions

* `Node.record` — a node without what is below its children
* `Property.OnlyAdds` — a change of one node that only adds to its properties

## Main results

* `Tree.infix_nodes` — the nodes below a node stand together
* `Tree.eq_root_or_exists_owner` — a node is the root or a child of another
* `Tree.get?_eq_some_iff` — a number finds the node that has it
* `Property.exists_record_modifyAll` — a change of one node leaves the records of the others alone
-/

namespace Componentry

variable {ε : Type}

/-! ### Records -/

/-- The property without what is below the node in it. -/
def Property.record : Property ε → Property ε
  | nested info node _ => nested info node []
  | scalar info value => scalar info value
  | list info items => list info items
  | reference info target => reference info target

/-- The node by itself: its properties are there, with the numbers of its children, but not what is
below the children. -/
def Node.record (n : Node ε) : Node ε := ⟨n.info, n.properties.map Property.record⟩

/-! ### Nodes in properties -/

namespace Property

mutual

theorem infix_nodes {n : Node ε} : ∀ {p : Property ε}, n ∈ p.nodes → n.nodes <:+: p.nodes
  | nested _ node properties, member => by
    rw [nodes] at member ⊢
    rcases List.mem_cons.mp member with rfl | below
    · exact List.infix_refl _
    · exact (infix_nodesAll below).trans (List.suffix_cons _ _).isInfix

/-- The nodes below a node in properties stand together. -/
theorem infix_nodesAll {n : Node ε} :
    ∀ {ps : List (Property ε)}, n ∈ nodesAll ps → n.nodes <:+: nodesAll ps
  | p :: rest, member => by
    rw [nodesAll] at member ⊢
    rcases List.mem_append.mp member with inside | inside
    · exact (infix_nodes inside).trans (List.prefix_append _ _).isInfix
    · exact (infix_nodesAll inside).trans (List.suffix_append _ _).isInfix

end

mutual

theorem exists_owner {n : Node ε} : ∀ {p : Property ε}, n ∈ p.nodes →
    p.child? = some n ∨ ∃ owner ∈ p.nodes, n ∈ owner.children
  | nested _ node properties, member => by
    rw [nodes] at member ⊢
    rcases List.mem_cons.mp member with rfl | below
    · exact Or.inl rfl
    · rcases exists_ownerAll below with outermost | ⟨owner, inside, owns⟩
      · exact Or.inr ⟨_, List.mem_cons_self, outermost⟩
      · exact Or.inr ⟨owner, List.mem_cons_of_mem _ inside, owns⟩

/-- A node in properties is the value of one of them, or of a property of another node in them. -/
theorem exists_ownerAll {n : Node ε} : ∀ {ps : List (Property ε)}, n ∈ nodesAll ps →
    n ∈ ps.filterMap child? ∨ ∃ owner ∈ nodesAll ps, n ∈ owner.children
  | p :: rest, member => by
    rw [nodesAll] at member ⊢
    rcases List.mem_append.mp member with inside | inside
    · rcases exists_owner inside with value | ⟨owner, within, owns⟩
      · exact Or.inl (List.mem_filterMap.mpr ⟨p, List.mem_cons_self, value⟩)
      · exact Or.inr ⟨owner, List.mem_append_left _ within, owns⟩
    · rcases exists_ownerAll inside with value | ⟨owner, within, owns⟩
      · obtain ⟨q, later, value⟩ := List.mem_filterMap.mp value
        exact Or.inl (List.mem_filterMap.mpr ⟨q, List.mem_cons_of_mem _ later, value⟩)
      · exact Or.inr ⟨owner, List.mem_append_right _ within, owns⟩

end

mutual

theorem mem_nodes_modify {i : Nat} {f : Node ε → Node ε} {n : Node ε} (number : n.info.index = i) :
    ∀ {p : Property ε}, p.indices.Nodup → n ∈ p.nodes → f n ∈ (p.modify i f).nodes
  | nested _ node properties, distinct, member => by
    rw [nodes] at member
    rw [indices, List.nodup_cons] at distinct
    rw [modify]
    rcases List.mem_cons.mp member with rfl | below
    · rw [if_pos number]
      exact List.mem_cons_self
    · -- The node around it has another number, so the change is made below.
      have inside : i ∈ indicesAll properties := by
        rw [← map_index_nodesAll, ← number]
        exact List.mem_map_of_mem below
      have other : node.index ≠ i := fun same => distinct.1 (same ▸ inside)
      rw [if_neg other]
      exact List.mem_cons_of_mem _ (mem_nodesAll_modifyAll number distinct.2 below)

/-- A change of a node in properties puts the changed node there. -/
theorem mem_nodesAll_modifyAll {i : Nat} {f : Node ε → Node ε} {n : Node ε}
    (number : n.info.index = i) :
    ∀ {ps : List (Property ε)}, (indicesAll ps).Nodup → n ∈ nodesAll ps →
      f n ∈ nodesAll (modifyAll i f ps)
  | p :: rest, distinct, member => by
    rw [indicesAll, List.nodup_append] at distinct
    rw [nodesAll] at member
    rw [modifyAll, nodesAll]
    rcases List.mem_append.mp member with inside | inside
    · exact List.mem_append_left _ (mem_nodes_modify number distinct.1 inside)
    · exact List.mem_append_right _ (mem_nodesAll_modifyAll number distinct.2.1 inside)

end

/-- A change of the node with the given number that keeps what is known of the node, and only adds
to its properties. -/
def OnlyAdds (i : Nat) (f : Node ε → Node ε) : Prop :=
  ∀ n, n.info.index = i → (f n).info = n.info ∧ n.properties <+: (f n).properties

/-- Such a change can be seen at the node itself and nowhere else. -/
theorem record_modify {i : Nat} {f : Node ε → Node ε} (adds : OnlyAdds i f) (p : Property ε) :
    (p.modify i f).record = p.record := by
  cases p with
  | nested info node properties =>
    rw [modify]
    split
    · rename_i number
      rw [record, record, (adds ⟨node, properties⟩ number).1]
    · rfl
  | scalar _ _ | list _ _ | reference _ _ => rfl

theorem map_record_modifyAll {i : Nat} {f : Node ε → Node ε} (adds : OnlyAdds i f)
    (ps : List (Property ε)) : (modifyAll i f ps).map record = ps.map record := by
  induction ps with
  | nil => rfl
  | cons p rest ih => rw [modifyAll, List.map_cons, record_modify adds, ih, List.map_cons]

theorem nodesAll_subset_of_prefix {ps qs : List (Property ε)} (longer : ps <+: qs) :
    nodesAll ps ⊆ nodesAll qs := by
  obtain ⟨more, rfl⟩ := longer
  intro n member
  rw [nodesAll_eq_flatMap] at member ⊢
  rw [List.filterMap_append, List.flatMap_append]
  exact List.mem_append_left _ member

mutual

theorem exists_record_modify {i : Nat} {f : Node ε → Node ε} (adds : OnlyAdds i f) {n : Node ε}
    (other : n.info.index ≠ i) :
    ∀ {p : Property ε}, n ∈ p.nodes → ∃ m ∈ (p.modify i f).nodes, m.record = n.record
  | nested _ node properties, member => by
    rw [nodes] at member
    rw [modify]
    split
    · -- The change is made here, and the nodes below stay.
      rename_i number
      rcases List.mem_cons.mp member with rfl | below
      · exact absurd number other
      · have kept := nodesAll_subset_of_prefix (adds ⟨node, properties⟩ number).2 below
        exact ⟨n, by rw [nodes]; exact List.mem_cons_of_mem _ kept, rfl⟩
    · rw [nodes]
      rcases List.mem_cons.mp member with rfl | below
      · refine ⟨_, List.mem_cons_self, ?_⟩
        rw [Node.record, Node.record, map_record_modifyAll adds]
      · obtain ⟨m, inside, same⟩ := exists_record_modifyAll adds other below
        exact ⟨m, List.mem_cons_of_mem _ inside, same⟩

/-- A node in properties other than the one that is changed is there after the change. -/
theorem exists_record_modifyAll {i : Nat} {f : Node ε → Node ε} (adds : OnlyAdds i f) {n : Node ε}
    (other : n.info.index ≠ i) :
    ∀ {ps : List (Property ε)}, n ∈ nodesAll ps →
      ∃ m ∈ nodesAll (modifyAll i f ps), m.record = n.record
  | p :: rest, member => by
    rw [nodesAll] at member
    rw [modifyAll, nodesAll]
    rcases List.mem_append.mp member with inside | inside
    · obtain ⟨m, found, same⟩ := exists_record_modify adds other inside
      exact ⟨m, List.mem_append_left _ found, same⟩
    · obtain ⟨m, found, same⟩ := exists_record_modifyAll adds other inside
      exact ⟨m, List.mem_append_right _ found, same⟩

end

theorem indicesAll_eq_flatMap (ps : List (Property ε)) : indicesAll ps = ps.flatMap indices := by
  induction ps with
  | nil => rfl
  | cons p rest ih => rw [indicesAll, ih, List.flatMap_cons]

/-- Two properties with a node of one number are one property, if numbers are not repeated. -/
theorem place_unique {ps : List (Property ε)} (distinct : (indicesAll ps).Nodup) {p q : Property ε}
    {k l i : Nat} (first : ps[k]? = some p) (second : ps[l]? = some q) (inside : i ∈ p.indices)
    (inside' : i ∈ q.indices) : k = l := by
  rw [indicesAll_eq_flatMap, List.nodup_flatMap, List.pairwise_iff_getElem] at distinct
  obtain ⟨inBounds, rfl⟩ := List.getElem?_eq_some_iff.mp first
  obtain ⟨inBounds', rfl⟩ := List.getElem?_eq_some_iff.mp second
  rcases Nat.lt_trichotomy k l with before | same | after
  · exact absurd inside' (distinct.2 k l inBounds inBounds' before inside)
  · exact same
  · exact absurd inside (distinct.2 l k inBounds' inBounds after inside')

theorem index_mem_indices {p : Property ε} {n : Node ε} (value : p.child? = some n) :
    n.info.index ∈ p.indices := by
  cases p with
  | nested _ _ _ =>
    cases value
    exact List.mem_cons_self
  | scalar _ _ | list _ _ | reference _ _ => cases value

end Property

namespace Node

/-- The node as the value of a property. -/
def asProperty (n : Node ε) : Property ε := .nested default n.info n.properties

@[simp] theorem nodes_asProperty (n : Node ε) : n.asProperty.nodes = n.nodes := by
  rw [asProperty, Property.nodes, nodes]

@[simp] theorem indices_asProperty (n : Node ε) : n.asProperty.indices = n.indices := by
  rw [asProperty, Property.indices, indices]

theorem modify_asProperty (i : Nat) (f : Node ε → Node ε) (n : Node ε) :
    n.asProperty.modify i f = (n.modify i f).asProperty := by
  rw [asProperty, Property.modify, modify]
  split <;> rfl

/-- The numbers below a node, by recursion on its children. -/
theorem indices_eq (n : Node ε) : n.indices = n.info.index :: n.children.flatMap Node.indices := by
  have below : Property.indicesAll n.properties = n.children.flatMap Node.indices := by
    rw [← Property.map_index_nodesAll, Property.nodesAll_eq_flatMap, List.map_flatMap]
    simp only [map_index_nodes]
    rfl
  rw [indices, below]

theorem mem_nodes_of_children {n child : Node ε} (owns : child ∈ n.children) : child ∈ n.nodes := by
  rw [nodes, Property.nodesAll_eq_flatMap]
  exact List.mem_cons_of_mem _ (List.mem_flatMap.mpr ⟨child, owns, List.mem_cons_self⟩)

end Node

/-! ### Nodes by number -/

namespace Tree

variable {t : Tree ε} {n : Node ε} {i : Nat}

theorem root_mem_nodes (t : Tree ε) : t.root ∈ t.nodes := by
  rw [nodes_eq]
  exact List.mem_cons_self

/-- The nodes below a node stand together. -/
theorem infix_nodes (member : n ∈ t.nodes) : n.nodes <:+: t.nodes := by
  rw [nodes_eq, ← Node.nodes_asProperty t.root] at member ⊢
  exact Property.infix_nodes member

theorem nodup_indices_of_mem (distinct : t.preorder.Nodup) (member : n ∈ t.nodes) :
    n.indices.Nodup := by
  rw [← Node.map_index_nodes]
  exact distinct.sublist ((infix_nodes member).sublist.map _)

theorem children_mem_nodes {child : Node ε} (member : n ∈ t.nodes) (owns : child ∈ n.children) :
    child ∈ t.nodes :=
  (infix_nodes member).subset (Node.mem_nodes_of_children owns)

/-- A node is the root or a child of another. -/
theorem eq_root_or_exists_owner (member : n ∈ t.nodes) :
    n = t.root ∨ ∃ owner ∈ t.nodes, n ∈ owner.children := by
  rw [nodes_eq, ← Node.nodes_asProperty] at member ⊢
  rcases Property.exists_owner member with value | owned
  · exact Or.inl (Option.some.inj value).symm
  · exact Or.inr owned

theorem get?_eq_some_iff (distinct : t.preorder.Nodup) :
    t.get? i = some n ↔ n ∈ t.nodes ∧ n.info.index = i := by
  constructor
  · intro found
    exact ⟨List.mem_of_find?_eq_some found, by simpa using List.find?_some found⟩
  · rintro ⟨member, number⟩
    obtain ⟨m, found⟩ : ∃ m, t.get? i = some m := by
      rw [← Option.isSome_iff_exists, get?, List.find?_isSome]
      exact ⟨n, member, decide_eq_true number⟩
    have number' : m.info.index = i := by simpa using List.find?_some found
    rw [found, List.inj_on_of_nodup_map distinct (List.mem_of_find?_eq_some found) member
      (number'.trans number.symm)]

theorem get?_of_mem (distinct : t.preorder.Nodup) (member : n ∈ t.nodes) :
    t.get? n.info.index = some n :=
  (get?_eq_some_iff distinct).mpr ⟨member, rfl⟩

end Tree

end Componentry
