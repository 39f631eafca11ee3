import Componentry.Proofs.Tree.Nodes
import Mathlib.Logic.Function.Iterate

/-!
# Trees by number

The nodes of a tree are found by their numbers, and name their owners by number. However a tree was
built, the numbers tell the same as the tree: each node but the root is the value of one property,
which belongs to the owner that the node names and that came before it. Names are qualified along
these owners, and a walk with a stack of numbers meets each node once.

## Main definitions

* `Tree.valueAt?` — the number of the node that is the value of a property
* `Tree.PathTo` — the names from the root to a node, along the owners
* `Tree.walk` — a step of a walk that keeps the numbers to be visited on a stack
* `Tree.descend` — a recursion that meets a node and then its children, by their numbers
* `Property.Placed` — a node comes after its owner, and names are qualified by that of the owner
* `Tree.IsArena` — what numbers tell of a tree

## Main results

* `Tree.IsGrown.insert`, `Tree.IsGrown.insertAll` — what holds while properties are added
* `Tree.IsGrown.walk_iterate` — the walk ends with the nodes in pre-order
* `Tree.IsGrown.descend_zero` — the recursion meets the nodes in pre-order
* `Tree.IsGrown.record_insert` — adding a property leaves the other nodes as they are
* `Tree.arena_insertAll` — a tree that was built is one by its numbers
-/

namespace Componentry

variable {ε : Type}

/-! ### Numbers -/

namespace Tree

/-- The number of the node that is the value of a property. The property is given by the number of
its owner and its place there. -/
def valueAt? (t : Tree ε) (place : Nat × Nat) : Option Nat := do
  let owner ← t.get? place.1
  let property ← owner.properties[place.2]?
  let child ← property.child?
  return child.info.index

/-- The names from the root to the node with the given number, along the owners that the nodes
name. -/
inductive PathTo (t : Tree ε) : Nat → List String → Prop
  | root {n : Node ε} (found : t.get? 0 = some n) : PathTo t 0 [n.info.name]
  | child {i owner : Nat} {n : Node ε} {names : List String} (found : t.get? i = some n)
      (owned : n.info.parent = some owner) (above : PathTo t owner names) :
      PathTo t i (names ++ [n.info.name])

/-- The numbers of the nodes that are values of the properties of a node, in order. -/
def childNumbers (t : Tree ε) (i : Nat) : List Nat :=
  match t.get? i with
  | some n => n.children.map (·.info.index)
  | none => []

/-- A step of a walk: the number on top of the stack is put out, and those of its children take its
place. -/
def walk (t : Tree ε) : List Nat × List Nat → List Nat × List Nat
  | (out, []) => (out, [])
  | (out, i :: stack) => (out ++ [i], t.childNumbers i ++ stack)

/-- A recursion that goes a number of levels down from the node with the given number: it meets the
node, and then what there is below each of its children in turn. -/
def descend (t : Tree ε) : Nat → Nat → List Nat
  | 0, _ => []
  | levels + 1, i => i :: (t.childNumbers i).flatMap (t.descend levels)

/-- A state of the walk: what was put out, followed by all nodes at or below those on the stack, is
the pre-order. -/
def Visiting (t : Tree ε) (state : List Nat × List Nat) : Prop :=
  ∃ agenda : List (Node ε), (∀ n ∈ agenda, n ∈ t.nodes) ∧ state.2 = agenda.map (·.info.index) ∧
    state.1 ++ agenda.flatMap Node.indices = t.preorder

/-- What numbers tell of a tree. -/
structure IsArena (t : Tree ε) : Prop where
  isSome_get?_iff : ∀ i, (t.get? i).isSome = true ↔ i < t.size
  /-- The root comes first; it has no owner and is no value. -/
  root : t.get? 0 = some t.root ∧ t.root.info.parent = none ∧ ∀ place, t.valueAt? place ≠ some 0
  /-- Every other node is the value of one property, and its owner came before it. -/
  held : ∀ i n, t.get? i = some n → 0 < i → ∃ owner k, n.info.parent = some owner ∧ owner < i ∧
    ∀ place, t.valueAt? place = some i ↔ place = (owner, k)
  qualified : ∀ i n, t.get? i = some n →
    (∃ names, t.PathTo i names ∧ (∀ other, t.PathTo i other → other = names) ∧
      n.info.qualifiedName = "$".intercalate names) ∧
    ∀ p ∈ n.properties, p.info.qualifiedName = n.info.qualifiedName ++ "$" ++ p.info.key
  preorder_perm : t.preorder.Perm (List.range t.size)
  /-- The walk ends, with the nodes in pre-order, after as many steps as there are nodes. -/
  walk_iff : ∀ k, t.walk^[k] ([], [0]) = (t.preorder, []) ↔ t.size ≤ k
  /-- Pre-order is what the recursion from the root meets, as soon as it may go deep enough. -/
  recursive : ∀ levels, t.size ≤ levels → t.descend levels 0 = t.preorder

variable {t : Tree ε} {i : Nat}

theorem PathTo.ne_nil {names : List String} (path : t.PathTo i names) : names ≠ [] := by
  cases path with
  | root _ => exact List.cons_ne_nil _ _
  | child _ _ _ => exact List.append_ne_nil_of_right_ne_nil _ (List.cons_ne_nil _ _)

/-- The value of a property is a child of its owner. -/
theorem valueAt?_eq_some_iff {place : Nat × Nat} : t.valueAt? place = some i ↔
    ∃ owner p child, t.get? place.1 = some owner ∧ owner.properties[place.2]? = some p ∧
      p.child? = some child ∧ child.info.index = i := by
  simp [valueAt?, Option.bind_eq_some_iff]

end Tree

/-! ### Places and names -/

/-- The node names its owner, came after it, and is qualified by its name. -/
structure NodeInfo.IsPlacedIn (node owner : NodeInfo) : Prop where
  parent : node.parent = some owner.index
  later : owner.index < node.index
  qualified : node.qualifiedName = Naming.qualify owner.qualifiedName node.name

/-- The property is qualified by the name of its owner. -/
def PropertyInfo.IsNamedIn (info : PropertyInfo) (owner : NodeInfo) : Prop :=
  info.qualifiedName = Naming.qualify owner.qualifiedName info.key

namespace Property

mutual

/-- The property is named in its owner, and so are all properties in it in theirs; the nodes in it
are placed in the nodes around them. -/
def Placed (owner : NodeInfo) : Property ε → Prop
  | nested info node properties =>
    info.IsNamedIn owner ∧ node.IsPlacedIn owner ∧ PlacedAll node properties
  | scalar info _ | list info _ | reference info _ => info.IsNamedIn owner

/-- All properties of a list are placed in one owner. -/
def PlacedAll (owner : NodeInfo) : List (Property ε) → Prop
  | [] => True
  | p :: rest => p.Placed owner ∧ PlacedAll owner rest

end

variable {owner : NodeInfo}

theorem placedAll_iff {ps : List (Property ε)} : PlacedAll owner ps ↔ ∀ p ∈ ps, p.Placed owner := by
  induction ps with
  | nil => simp [PlacedAll]
  | cons p rest ih => rw [PlacedAll, ih, List.forall_mem_cons]

theorem Placed.named {p : Property ε} (h : p.Placed owner) : p.info.IsNamedIn owner := by
  cases p with
  | nested _ _ _ => exact h.1
  | scalar _ _ | list _ _ | reference _ _ => exact h

theorem Placed.child {p : Property ε} (h : p.Placed owner) {n : Node ε}
    (value : p.child? = some n) : n.info.IsPlacedIn owner := by
  cases p with
  | nested _ _ _ =>
    cases value
    exact h.2.1
  | scalar _ _ | list _ _ | reference _ _ => cases value

mutual

theorem Placed.of_mem {n : Node ε} :
    ∀ {owner : NodeInfo} {p : Property ε}, p.Placed owner → n ∈ p.nodes →
    PlacedAll n.info n.properties
  | _, nested _ node properties, ⟨_, _, below⟩, member => by
    rw [nodes] at member
    rcases List.mem_cons.mp member with rfl | inside
    · exact below
    · exact below.of_mem inside

/-- The properties of all nodes in placed properties are placed. -/
theorem PlacedAll.of_mem {n : Node ε} :
    ∀ {owner : NodeInfo} {ps : List (Property ε)}, PlacedAll owner ps →
    n ∈ nodesAll ps → PlacedAll n.info n.properties
  | _, p :: rest, ⟨head, tail⟩, member => by
    rw [nodesAll] at member
    rcases List.mem_append.mp member with inside | inside
    · exact head.of_mem inside
    · exact tail.of_mem inside

end

/-- A change of the node with the given number that keeps what is known of the node, and keeps its
properties placed. -/
def KeepsPlaces (i : Nat) (f : Node ε → Node ε) : Prop :=
  ∀ n, n.info.index = i → PlacedAll n.info n.properties →
    (f n).info = n.info ∧ PlacedAll n.info (f n).properties

mutual

theorem Placed.modify {i : Nat} {f : Node ε → Node ε} (keeps : KeepsPlaces i f) :
    ∀ {owner : NodeInfo} {p : Property ε}, p.Placed owner → (p.modify i f).Placed owner
  | _, scalar _ _, h | _, list _ _, h | _, reference _ _, h => h
  | _, nested _ node properties, ⟨named, placed, below⟩ => by
    rw [Property.modify]
    split
    · rename_i number
      obtain ⟨info_eq, kept⟩ := keeps ⟨node, properties⟩ number below
      simp only [Placed, info_eq]
      exact ⟨named, placed, kept⟩
    · exact ⟨named, placed, below.modifyAll keeps⟩

/-- A change of one node keeps properties placed. -/
theorem PlacedAll.modifyAll {i : Nat} {f : Node ε → Node ε} (keeps : KeepsPlaces i f) :
    ∀ {owner : NodeInfo} {ps : List (Property ε)}, PlacedAll owner ps →
      PlacedAll owner (Property.modifyAll i f ps)
  | _, [], h => h
  | _, _ :: _, ⟨head, tail⟩ => ⟨head.modify keeps, tail.modifyAll keeps⟩

end

end Property

theorem Item.placed_property (item : Item ε) {owner : NodeInfo} {index : Nat}
    (later : owner.index < index) : (item.property owner index).Placed owner := by
  obtain ⟨_, _, _, content⟩ := item
  cases content with
  | scalar _ | list _ | reference _ => exact rfl
  | node _ => exact ⟨rfl, ⟨rfl, later, rfl⟩, trivial⟩

/-! ### Growth -/

/-- What holds of a tree while properties are added to it. -/
structure Tree.IsGrown (t : Tree ε) : Prop where
  wellFormed : t.WellFormed fun _ => True
  index_root : t.root.info.index = 0
  name_root : t.root.info.qualifiedName = t.root.info.name
  placed : Property.PlacedAll t.root.info t.root.properties

namespace Tree.IsGrown

variable {t : Tree ε} {n : Node ε} {i : Nat}

theorem nodup_preorder (h : t.IsGrown) : t.preorder.Nodup := by
  rw [preorder_eq]
  exact h.wellFormed.nodup_indices

theorem mem_preorder_iff (h : t.IsGrown) : i ∈ t.preorder ↔ i < t.size := by
  rw [preorder_eq, h.wellFormed.numbered.mem_iff, List.mem_range]

/-- Adding a property keeps a tree grown. -/
theorem insert (h : t.IsGrown) (item : Item ε) : (t.insert item).IsGrown := by
  have holds : item.content.Holds fun _ => True := by
    obtain ⟨_, _, _, content⟩ := item
    cases content with
    | list _ => exact fun _ _ => trivial
    | scalar _ | node _ | reference _ => trivial
  have root : (t.insert item).root.info = t.root.info := by
    rw [insert_eq_modify, modify, Node.modify]
    split <;> rfl
  refine ⟨h.wellFormed.insert holds, root ▸ h.index_root, root ▸ h.name_root, ?_⟩
  rw [root]
  by_cases present : item.owner ∈ t.root.indices
  · -- The owner is there already, so a new node comes later.
    have earlier : item.owner < t.size := by
      rw [← h.mem_preorder_iff, preorder_eq]
      exact present
    have keeps : Property.KeepsPlaces item.owner (t.attach item) := by
      intro owner number placed
      refine ⟨rfl, ?_⟩
      rw [Property.placedAll_iff] at placed ⊢
      intro p member
      rcases List.mem_append.mp member with old | new
      · exact placed p old
      · rw [List.mem_singleton.mp new]
        exact item.placed_property (number ▸ earlier)
    rw [insert_eq_modify, modify, Node.modify]
    split
    · rename_i number
      exact (keeps t.root number h.placed).2
    · exact h.placed.modifyAll keeps
  · rw [insert_eq_self present]
    exact h.placed

/-- Adding properties one after the other keeps a tree grown. -/
theorem insertAll (items : List (Item ε)) (h : t.IsGrown) : (t.insertAll items).IsGrown := by
  induction items generalizing t with
  | nil => exact h
  | cons item rest ih => exact ih (h.insert item)

theorem get?_insert (h : t.IsGrown) {item : Item ε} {owner : Node ε}
    (found : t.get? item.owner = some owner) :
    (t.insert item).get? item.owner = some (t.attach item owner) := by
  obtain ⟨member, number⟩ := (get?_eq_some_iff h.nodup_preorder).mp found
  refine (get?_eq_some_iff (h.insert item).nodup_preorder).mpr ⟨?_, number⟩
  have distinct := h.wellFormed.nodup_indices
  rw [nodes_eq, ← Node.nodes_asProperty] at member ⊢
  rw [← Node.indices_asProperty] at distinct
  rw [insert_eq_modify, modify, ← Node.modify_asProperty]
  exact Property.mem_nodes_modify number distinct member

theorem onlyAdds_attach (t : Tree ε) (item : Item ε) :
    Property.OnlyAdds item.owner (t.attach item) :=
  fun _ _ => ⟨rfl, List.prefix_append _ _⟩

/-- Adding a property leaves the other nodes as they are. -/
theorem record_insert (h : t.IsGrown) {item : Item ε} (other : i ≠ item.owner)
    (inside : i < t.size) :
    ((t.insert item).get? i).map Node.record = (t.get? i).map Node.record := by
  rw [← h.mem_preorder_iff, preorder, List.mem_map] at inside
  obtain ⟨n, member, rfl⟩ := inside
  have still : ∃ m ∈ (t.insert item).nodes, m.record = n.record := by
    rw [nodes_eq, ← Node.nodes_asProperty] at member ⊢
    rw [insert_eq_modify, modify, ← Node.modify_asProperty]
    exact Property.exists_record_modify (onlyAdds_attach t item) other member
  obtain ⟨m, found, same⟩ := still
  have number : m.info.index = n.info.index := congrArg (fun k => k.info.index) same
  rw [get?_of_mem h.nodup_preorder member, ← number,
    get?_of_mem (h.insert item).nodup_preorder found, Option.map_some, same, Option.map_some]

/-! ### What numbers tell -/

theorem placed_of_mem (h : t.IsGrown) (member : n ∈ t.nodes) {p : Property ε}
    (inside : p ∈ n.properties) : p.Placed n.info := by
  rw [nodes_eq] at member
  have all : Property.PlacedAll n.info n.properties := by
    rcases List.mem_cons.mp member with rfl | below
    · exact h.placed
    · exact h.placed.of_mem below
  exact Property.placedAll_iff.mp all p inside

theorem isPlacedIn_of_children (h : t.IsGrown) (member : n ∈ t.nodes) {child : Node ε}
    (owns : child ∈ n.children) : child.info.IsPlacedIn n.info := by
  obtain ⟨p, inside, value⟩ := List.mem_filterMap.mp owns
  exact (h.placed_of_mem member inside).child value

theorem isSome_get?_iff (h : t.IsGrown) (i : Nat) : (t.get? i).isSome = true ↔ i < t.size := by
  rw [← h.mem_preorder_iff, preorder, List.mem_map, get?, List.find?_isSome]
  simp

/-- A node that is added with a property takes the next number, and nothing else does. -/
theorem get?_size_insert (h : t.IsGrown) {item : Item ε} {owner : Node ε}
    (found : t.get? item.owner = some owner) :
    (t.insert item).get? t.size = (item.property owner.info t.size).child? := by
  cases new : (item.property owner.info t.size).child? with
  | some child =>
    have number : child.info.index = t.size := by
      obtain ⟨_, _, _, content⟩ := item
      cases content with
      | node _ =>
        cases new
        rfl
      | scalar _ | list _ | reference _ => cases new
    rw [get?_eq_some_iff (h.insert item).nodup_preorder]
    have attached := List.mem_of_find?_eq_some (h.get?_insert found)
    refine ⟨children_mem_nodes attached (List.mem_filterMap.mpr ⟨_, ?_, new⟩), number⟩
    exact List.mem_append_right _ (List.mem_singleton_self _)
  | none =>
    have present : item.owner ∈ t.root.indices := by
      rw [← preorder_eq, h.mem_preorder_iff, ← h.isSome_get?_iff, found]
      rfl
    have plain : (item.property owner.info t.size).indices = [] := by
      cases property : item.property owner.info t.size with
      | nested _ _ _ => simp [property, Property.child?] at new
      | scalar _ _ | list _ _ | reference _ _ => simp [Property.indices]
    have size_eq := h.wellFormed.size_insert present owner.info
    rw [plain, List.length_nil, Nat.add_zero] at size_eq
    rw [← Option.not_isSome_iff_eq_none, (h.insert item).isSome_get?_iff, size_eq]
    exact Nat.lt_irrefl _

theorem get?_zero (h : t.IsGrown) : t.get? 0 = some t.root := by
  rw [← h.index_root]
  exact get?_of_mem h.nodup_preorder t.root_mem_nodes

/-- The value of a property is a node that is placed in the owner of the property. -/
theorem of_valueAt? (h : t.IsGrown) {place : Nat × Nat} (value : t.valueAt? place = some i) :
    ∃ owner child, t.get? place.1 = some owner ∧ t.get? i = some child ∧
      child.info.IsPlacedIn owner.info := by
  obtain ⟨owner, p, child, found, at_place, isChild, rfl⟩ := valueAt?_eq_some_iff.mp value
  have member := ((get?_eq_some_iff h.nodup_preorder).mp found).1
  have inside := List.mem_of_getElem? at_place
  have owns : child ∈ owner.children := List.mem_filterMap.mpr ⟨p, inside, isChild⟩
  refine ⟨owner, child, found, ?_, h.isPlacedIn_of_children member owns⟩
  exact get?_of_mem h.nodup_preorder (children_mem_nodes member owns)

/-- A property is the only one with its value. -/
theorem place_unique (h : t.IsGrown) {place place' : Nat × Nat} (value : t.valueAt? place = some i)
    (value' : t.valueAt? place' = some i) : place = place' := by
  -- The node names one owner, and the numbers in the properties of that are all different.
  have owners : place.1 = place'.1 := by
    obtain ⟨owner, child, found, this, placed⟩ := h.of_valueAt? value
    obtain ⟨owner', child', found', this', placed'⟩ := h.of_valueAt? value'
    cases this.symm.trans this'
    have number := ((get?_eq_some_iff h.nodup_preorder).mp found).2
    have number' := ((get?_eq_some_iff h.nodup_preorder).mp found').2
    rw [← number, ← number']
    exact Option.some.inj (placed.parent.symm.trans placed'.parent)
  obtain ⟨owner, p, child, found, at_place, isChild, rfl⟩ := valueAt?_eq_some_iff.mp value
  obtain ⟨owner', p', child', found', at_place', isChild', number⟩ := valueAt?_eq_some_iff.mp value'
  cases found.symm.trans (owners ▸ found')
  have member := ((get?_eq_some_iff h.nodup_preorder).mp found).1
  have distinct := (List.nodup_cons.mp (nodup_indices_of_mem h.nodup_preorder member)).2
  have positions :=
    Property.place_unique distinct at_place at_place' (Property.index_mem_indices isChild)
      (number ▸ Property.index_mem_indices isChild')
  exact Prod.ext owners positions

/-- Every node but the root is the value of one property, and its owner came before it. -/
theorem exists_place (h : t.IsGrown) (found : t.get? i = some n) (other : 0 < i) :
    ∃ owner k, n.info.parent = some owner ∧ owner < i ∧
      ∀ place, t.valueAt? place = some i ↔ place = (owner, k) := by
  obtain ⟨member, rfl⟩ := (get?_eq_some_iff h.nodup_preorder).mp found
  rcases eq_root_or_exists_owner member with rfl | ⟨owner, inside, owns⟩
  · exact absurd h.index_root (Nat.ne_of_gt other)
  · have placed := h.isPlacedIn_of_children inside owns
    obtain ⟨p, listed, value⟩ := List.mem_filterMap.mp owns
    obtain ⟨k, at_place⟩ := List.getElem?_of_mem listed
    have held : t.valueAt? (owner.info.index, k) = some n.info.index :=
      valueAt?_eq_some_iff.mpr ⟨owner, p, n, get?_of_mem h.nodup_preorder inside,
        at_place, value, rfl⟩
    refine ⟨owner.info.index, k, placed.parent, placed.later, fun place => ⟨?_, ?_⟩⟩
    · intro same
      exact h.place_unique same held
    · rintro rfl
      exact held

/-! ### Names -/

theorem exists_path (h : t.IsGrown) (found : t.get? i = some n) : ∃ names, t.PathTo i names := by
  induction i using Nat.strongRecOn generalizing n with
  | ind i ih =>
    rcases Nat.eq_zero_or_pos i with rfl | other
    · exact ⟨_, .root found⟩
    · obtain ⟨owner, k, parent, earlier, held⟩ := h.exists_place found other
      obtain ⟨above, _, foundAbove, -⟩ := h.of_valueAt? ((held (owner, k)).mpr rfl)
      obtain ⟨names, path⟩ := ih owner earlier foundAbove
      exact ⟨_, .child found parent path⟩

theorem path_unique (h : t.IsGrown) {names other : List String} (path : t.PathTo i names)
    (path' : t.PathTo i other) : other = names := by
  -- The root names no owner, so two paths to a node end in the same way.
  induction path generalizing other with
  | root found =>
    cases path' with
    | root found' =>
      cases found.symm.trans found'
      rfl
    | child found' owned _ =>
      cases h.get?_zero.symm.trans found'
      rw [h.wellFormed.parent_root] at owned
      cases owned
  | child found owned above ih =>
    cases path' with
    | root found' =>
      cases h.get?_zero.symm.trans found
      rw [h.wellFormed.parent_root] at owned
      cases owned
    | child found' owned' above' =>
      cases found.symm.trans found'
      cases owned.symm.trans owned'
      rw [ih above']

/-- The qualified name of a node lists the names on the path to it. -/
theorem qualifiedName_eq (h : t.IsGrown) {names : List String} (path : t.PathTo i names)
    (found : t.get? i = some n) : n.info.qualifiedName = "$".intercalate names := by
  induction path generalizing n with
  | root found' =>
    cases found.symm.trans found'
    cases h.get?_zero.symm.trans found
    rw [h.name_root, String.intercalate_singleton]
  | @child i owner m names found' owned above ih =>
    cases found.symm.trans found'
    rcases Nat.eq_zero_or_pos i with rfl | other
    · cases h.get?_zero.symm.trans found
      rw [h.wellFormed.parent_root] at owned
      cases owned
    · -- The owner that the node names is the one that it is placed in, which qualifies its name.
      obtain ⟨parent, k, named, -, held⟩ := h.exists_place found other
      cases owned.symm.trans named
      obtain ⟨node, child, foundOwner, foundChild, placed⟩ :=
        h.of_valueAt? ((held (owner, k)).mpr rfl)
      cases found.symm.trans foundChild
      rw [placed.qualified, ih foundOwner,
        String.intercalate_append_of_ne_nil above.ne_nil (by simp), String.intercalate_singleton]
      rfl

/-! ### The walk -/

theorem childNumbers_of_mem (h : t.IsGrown) (member : n ∈ t.nodes) :
    t.childNumbers n.info.index = n.children.map (·.info.index) := by
  rw [childNumbers, get?_of_mem h.nodup_preorder member]

/-- One step of the walk puts out one number, if there is one. -/
theorem visiting_walk (h : t.IsGrown) {state : List Nat × List Nat} (visiting : t.Visiting state) :
    t.Visiting (t.walk state) ∧
      (t.walk state).1.length = if state.2 = [] then state.1.length else state.1.length + 1 := by
  obtain ⟨out, stack⟩ := state
  obtain ⟨agenda, inside, rfl, rest⟩ := visiting
  cases agenda with
  | nil => exact ⟨⟨[], inside, rfl, rest⟩, rfl⟩
  | cons n agenda =>
    obtain ⟨member, others⟩ := List.forall_mem_cons.mp inside
    have children := h.childNumbers_of_mem member
    -- The numbers below the node are its own and those below its children, which are on the stack
    -- now.
    refine ⟨⟨n.children ++ agenda, ?_, ?_, ?_⟩, ?_⟩
    · rw [List.forall_mem_append]
      exact ⟨fun child owns => children_mem_nodes member owns, others⟩
    · simp [walk, children]
    · rw [← rest]
      simp [walk, n.indices_eq]
    · simp [walk]

theorem visiting_iterate (h : t.IsGrown) (k : Nat) :
    t.Visiting (t.walk^[k] ([], [0])) ∧ (t.walk^[k] ([], [0])).1.length = min k t.size := by
  induction k with
  | zero =>
    refine ⟨⟨[t.root], ?_, ?_, ?_⟩, (Nat.zero_min _).symm⟩
    · exact List.forall_mem_singleton.mpr t.root_mem_nodes
    · simp [h.index_root]
    · simp [preorder_eq]
  | succ k ih =>
    obtain ⟨visiting, length⟩ := ih
    obtain ⟨next, counted⟩ := h.visiting_walk visiting
    rw [Function.iterate_succ_apply']
    refine ⟨next, ?_⟩
    rw [counted, length]
    -- The stack is empty exactly if all numbers were put out.
    obtain ⟨agenda, -, stack, rest⟩ := visiting
    have total := congrArg List.length rest
    rw [List.length_append, length, preorder, List.length_map, length_nodes] at total
    cases agenda with
    | nil =>
      rw [stack, List.map_nil, if_pos rfl]
      simp at total
      omega
    | cons n agenda =>
      rw [stack, List.map_cons, if_neg (List.cons_ne_nil _ _)]
      simp [n.indices_eq] at total
      omega

/-- The walk ends with the nodes in pre-order after as many steps as there are nodes, and no
sooner. -/
theorem walk_iterate (h : t.IsGrown) (k : Nat) :
    t.walk^[k] ([], [0]) = (t.preorder, []) ↔ t.size ≤ k := by
  obtain ⟨⟨agenda, -, stack, rest⟩, length⟩ := h.visiting_iterate k
  have all : t.preorder.length = t.size := by rw [preorder, List.length_map, length_nodes]
  constructor
  · intro ended
    rw [ended, all] at length
    omega
  · intro enough
    rw [Nat.min_eq_right enough] at length
    have total := congrArg List.length rest
    rw [List.length_append, length, all] at total
    cases agenda with
    | nil =>
      rw [List.flatMap_nil, List.append_nil] at rest
      exact Prod.ext rest stack
    | cons n agenda =>
      simp [n.indices_eq] at total

/-! ### The recursion -/

/-- From a node, the recursion meets what is at or below the node, if it may go deep enough. -/
theorem descend_of_mem (h : t.IsGrown) {levels : Nat} (member : n ∈ t.nodes)
    (deep : n.indices.length ≤ levels) : t.descend levels n.info.index = n.indices := by
  induction levels generalizing n with
  | zero =>
    rw [n.indices_eq] at deep
    exact absurd deep (Nat.not_succ_le_zero _)
  | succ levels ih =>
    rw [descend, h.childNumbers_of_mem member, n.indices_eq, List.flatMap_map]
    congr 1
    apply List.flatMap_congr
    intro child owns
    apply ih (children_mem_nodes member owns)
    -- There is less below a child than below the node.
    rw [n.indices_eq, List.length_cons] at deep
    have within : child.indices.Sublist (n.children.flatMap Node.indices) := by
      rw [List.flatMap_def]
      exact List.sublist_flatten_of_mem (List.mem_map_of_mem owns)
    exact Nat.le_trans within.length_le (Nat.le_of_succ_le_succ deep)

theorem descend_zero (h : t.IsGrown) {levels : Nat} (deep : t.size ≤ levels) :
    t.descend levels 0 = t.preorder := by
  rw [← h.index_root, h.descend_of_mem t.root_mem_nodes deep, preorder_eq]

/-- A grown tree is one by its numbers. -/
theorem isArena (h : t.IsGrown) : t.IsArena where
  isSome_get?_iff := h.isSome_get?_iff
  root := by
    refine ⟨h.get?_zero, h.wellFormed.parent_root, fun place value => ?_⟩
    obtain ⟨_, child, _, found, placed⟩ := h.of_valueAt? value
    cases h.get?_zero.symm.trans found
    cases h.wellFormed.parent_root.symm.trans placed.parent
  held := fun _ _ found other => h.exists_place found other
  qualified := by
    intro i n found
    obtain ⟨names, path⟩ := h.exists_path found
    refine ⟨⟨names, path, fun _ path' => h.path_unique path path', h.qualifiedName_eq path found⟩,
      ?_⟩
    intro p inside
    exact (h.placed_of_mem ((get?_eq_some_iff h.nodup_preorder).mp found).1 inside).named
  preorder_perm := by
    rw [preorder_eq]
    exact h.wellFormed.numbered
  walk_iff := h.walk_iterate
  recursive _ deep := h.descend_zero deep

end Tree.IsGrown

/-- **Trees by number.** Let a tree be built from its root by adding properties to nodes, in any
order. Then the nodes are numbered from the root on. Each other node is the value of one property,
which belongs to the owner that the node names, and has a greater number than its owner. The
qualified name of a node lists the names on the path to it, and that of a property has its key
behind that of its owner. A walk with a stack ends and meets each node once, in the order of the
recursion that meets a node and then its children. Adding one more property puts it behind those
that its owner has. A node in it takes the next number, and all other nodes stay as they are; where
there is no such owner, nothing is added. -/
theorem Tree.arena_insertAll (name : String) (span : Span) (items : List (Item ε)) :
    let t : Tree ε := (new name span).insertAll items
    t.IsArena ∧
    (∀ item owner, t.get? item.owner = some owner →
      (t.insert item).get? item.owner =
        some ⟨owner.info, owner.properties ++ [item.property owner.info t.size]⟩ ∧
      (t.insert item).get? t.size = (item.property owner.info t.size).child? ∧
      ∀ i < t.size, i ≠ item.owner →
        ((t.insert item).get? i).map Node.record = (t.get? i).map Node.record) ∧
    ∀ item, t.get? item.owner = none → t.insert item = t := by
  intro t
  have start : (new name span : Tree ε).IsGrown := ⟨wellFormed_new _ name span, rfl, rfl, trivial⟩
  have grown : t.IsGrown := start.insertAll items
  refine ⟨grown.isArena, fun item owner found => ?_, fun item missing => ?_⟩
  · exact ⟨grown.get?_insert found, grown.get?_size_insert found,
      fun i inside other => grown.record_insert other inside⟩
  · apply insert_eq_self
    rw [← preorder_eq, grown.mem_preorder_iff, ← grown.isSome_get?_iff, missing]
    exact Bool.false_ne_true

example :
    let t : Tree Nat := (Tree.new "panel" default).insertAll
      [⟨0, "header", default, .node "label"⟩, ⟨0, "body", default, .node "panel"⟩,
        ⟨1, "icon", default, .node "image"⟩]
    t.preorder = [0, 1, 3, 2] ∧ t.valueAt? (1, 0) = some 3 ∧
      (t.get? 3).map (·.info.qualifiedName) = some "panel$label$image" := by
  decide

end Componentry
