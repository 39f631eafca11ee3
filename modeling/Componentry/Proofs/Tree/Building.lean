import Componentry.Tree.Literal
import Componentry.Tree.Basic

/-!
# Building a tree

A tree is built from its root by adding properties one after the other. However it was built, every
nested node names its owner, the nodes are numbered without gaps, and the values are those that were
added.

## Main definitions

* `Property.Anchored` — nested nodes name their owners, and all values satisfy a predicate
* `Tree.WellFormed` — what holds of every tree that was built by adding properties
* `Tree.Untouched` — no node has a type, and nothing is bound
* `Tree.IsFresh` — the tree was built from literals as they are written

## Main results

* `Tree.WellFormed.insert` — adding a property keeps a tree well formed
* `Tree.IsFresh.wellFormed` — so every tree built from literals is
* `Tree.IsFresh.untouched` — a tree built from literals is untouched
-/

namespace Componentry

variable {ε : Type}

namespace Property

mutual

/-- Every nested node names the node around it as its owner, the outermost one `owner`, all values
satisfy `V`, and properties without a value of their own are not bound. -/
def Anchored (V : ε → Prop) (owner : Nat) : Property ε → Prop
  | scalar _ value => V value
  | list _ items => ∀ item ∈ items, V item
  | nested info node properties =>
    info.binding = .unbound ∧ node.parent = some owner ∧ AnchoredAll V node.index properties
  | reference info _ => info.binding = .unbound

/-- All properties of a list are anchored at one owner. -/
def AnchoredAll (V : ε → Prop) (owner : Nat) : List (Property ε) → Prop
  | [] => True
  | p :: rest => p.Anchored V owner ∧ AnchoredAll V owner rest

end

theorem anchoredAll_append {V : ε → Prop} {owner : Nat} {ps qs : List (Property ε)} :
    AnchoredAll V owner (ps ++ qs) ↔ AnchoredAll V owner ps ∧ AnchoredAll V owner qs := by
  induction ps with
  | nil => simp [AnchoredAll]
  | cons p ps ih => simp only [List.cons_append, AnchoredAll, ih, and_assoc]

/-- A change of nodes that keeps what is known of a node, and keeps its properties anchored. -/
def KeepsAnchors (V : ε → Prop) (f : Node ε → Node ε) : Prop :=
  ∀ n, AnchoredAll V n.info.index n.properties →
    (f n).info = n.info ∧ AnchoredAll V n.info.index (f n).properties

mutual

theorem Anchored.modify {V : ε → Prop} {i : Nat} {f : Node ε → Node ε} (keeps : KeepsAnchors V f) :
    ∀ {owner : Nat} {p : Property ε}, p.Anchored V owner → (p.modify i f).Anchored V owner
  | _, scalar _ _, h | _, list _ _, h | _, reference _ _, h => h
  | _, nested _ node properties, ⟨unbound, parent, below⟩ => by
    rw [Property.modify]
    split
    · obtain ⟨info_eq, anchored⟩ := keeps ⟨node, properties⟩ below
      simp only [Anchored, info_eq]
      exact ⟨unbound, parent, anchored⟩
    · exact ⟨unbound, parent, below.modifyAll keeps⟩

/-- A change of one node keeps properties anchored. -/
theorem AnchoredAll.modifyAll {V : ε → Prop} {i : Nat} {f : Node ε → Node ε}
    (keeps : KeepsAnchors V f) :
    ∀ {owner : Nat} {ps : List (Property ε)},
      AnchoredAll V owner ps → AnchoredAll V owner (Property.modifyAll i f ps)
  | _, [], h => h
  | _, _ :: _, ⟨head, tail⟩ => ⟨head.modify keeps, tail.modifyAll keeps⟩

end

mutual

theorem modify_eq_self {i : Nat} {f : Node ε → Node ε} :
    ∀ {p : Property ε}, i ∉ p.indices → p.modify i f = p
  | scalar _ _, _ | list _ _, _ | reference _ _, _ => rfl
  | nested _ node properties, absent => by
    simp only [indices, List.mem_cons, not_or] at absent
    rw [modify, if_neg (Ne.symm absent.1), modifyAll_eq_self absent.2]

/-- A change of a node that is not there changes nothing. -/
theorem modifyAll_eq_self {i : Nat} {f : Node ε → Node ε} :
    ∀ {ps : List (Property ε)}, i ∉ indicesAll ps → modifyAll i f ps = ps
  | [], _ => rfl
  | p :: rest, absent => by
    simp only [indicesAll, List.mem_append, not_or] at absent
    rw [modifyAll, modify_eq_self absent.1, modifyAll_eq_self absent.2]

end

mutual

theorem indices_modify {i : Nat} {f : Node ε → Node ε} {added : List Nat}
    (adds : ∀ n, (f n).indices.Perm (n.indices ++ added)) :
    ∀ {p : Property ε}, p.indices.Nodup → i ∈ p.indices →
      (p.modify i f).indices.Perm (p.indices ++ added)
  | scalar _ _, _, present | list _ _, _, present | reference _ _, _, present => nomatch present
  | nested _ node properties, nodup, present => by
    rw [modify]
    split
    · exact adds ⟨node, properties⟩
    · rename_i other
      have below : i ∈ indicesAll properties := by
        simpa [indices, Ne.symm other] using present
      exact (indicesAll_modifyAll adds (List.nodup_cons.mp nodup).2 below).cons node.index

/-- A change of one node adds its numbers once. -/
theorem indicesAll_modifyAll {i : Nat} {f : Node ε → Node ε} {added : List Nat}
    (adds : ∀ n, (f n).indices.Perm (n.indices ++ added)) :
    ∀ {ps : List (Property ε)}, (indicesAll ps).Nodup → i ∈ indicesAll ps →
      (indicesAll (modifyAll i f ps)).Perm (indicesAll ps ++ added)
  | p :: rest, nodup, present => by
    simp only [indicesAll, modifyAll] at nodup present ⊢
    obtain ⟨first, others, disjoint⟩ := List.nodup_append.mp nodup
    rcases List.mem_append.mp present with inside | inside
    · -- The numbers of the two parts are disjoint, so the rest has no node to change.
      have absent : i ∉ indicesAll rest := fun h => disjoint i inside i h rfl
      rw [modifyAll_eq_self absent, List.append_assoc]
      refine ((indices_modify adds first inside).append_right _).trans ?_
      rw [List.append_assoc]
      exact List.perm_append_comm.append_left _
    · have absent : i ∉ p.indices := fun h => disjoint i h i inside rfl
      rw [modify_eq_self absent, List.append_assoc]
      exact (indicesAll_modifyAll adds others inside).append_left _

end

theorem indicesAll_append (ps qs : List (Property ε)) :
    indicesAll (ps ++ qs) = indicesAll ps ++ indicesAll qs := by
  induction ps with
  | nil => rfl
  | cons p ps ih => simp [indicesAll, ih]

end Property

namespace Node

theorem modify_eq_self {i : Nat} {f : Node ε → Node ε} {n : Node ε} (absent : i ∉ n.indices) :
    n.modify i f = n := by
  simp only [indices, List.mem_cons, not_or] at absent
  rw [modify, if_neg (Ne.symm absent.1), Property.modifyAll_eq_self absent.2]

theorem indices_modify {i : Nat} {f : Node ε → Node ε} {added : List Nat}
    (adds : ∀ n, (f n).indices.Perm (n.indices ++ added)) {n : Node ε} (nodup : n.indices.Nodup)
    (present : i ∈ n.indices) : (n.modify i f).indices.Perm (n.indices ++ added) := by
  rw [modify]
  split
  · exact adds n
  · rename_i other
    have below : i ∈ Property.indicesAll n.properties := by
      simpa [indices, Ne.symm other] using present
    exact (Property.indicesAll_modifyAll adds (List.nodup_cons.mp nodup).2 below).cons n.info.index

end Node

/-- All values in the content of a new property satisfy `V`. -/
def Content.Holds (V : ε → Prop) : Content ε → Prop
  | scalar value => V value
  | list items => ∀ item ∈ items, V item
  | node _ | reference _ => True

namespace Item

theorem anchored_property {V : ε → Prop} {item : Item ε} (holds : item.content.Holds V)
    (owner : NodeInfo) (index : Nat) : (item.property owner index).Anchored V owner.index := by
  obtain ⟨_, _, _, content⟩ := item
  cases content with
  | scalar _ | list _ => exact holds
  | node _ => exact ⟨rfl, rfl, trivial⟩
  | reference _ => rfl

/-- A new property has at most one node, which takes the number that is given for it. -/
theorem indices_property (item : Item ε) (index : Nat) :
    ∃ added, (∀ owner, (item.property owner index).indices = added) ∧
      (added = [index] ∨ added = []) := by
  obtain ⟨_, _, _, content⟩ := item
  cases content with
  | node _ => exact ⟨[index], fun _ => rfl, Or.inl rfl⟩
  | scalar _ | list _ | reference _ => exact ⟨[], fun _ => rfl, Or.inr rfl⟩

end Item

/-- What holds of every tree that was built by adding properties with values that satisfy `V`. -/
structure Tree.WellFormed (V : ε → Prop) (t : Tree ε) : Prop where
  parent_root : t.root.info.parent = none
  anchored : Property.AnchoredAll V t.root.info.index t.root.properties
  /-- The nodes are numbered without gaps. -/
  numbered : t.root.indices.Perm (List.range t.size)

namespace Tree

theorem wellFormed_new (V : ε → Prop) (name : String) (span : Span) :
    (new name span : Tree ε).WellFormed V :=
  ⟨rfl, trivial, List.Perm.refl _⟩

/-- The change that adds a property to its owner. -/
def attach (t : Tree ε) (item : Item ε) (owner : Node ε) : Node ε :=
  ⟨owner.info, owner.properties ++ [item.property owner.info t.size]⟩

theorem insert_eq_modify (t : Tree ε) (item : Item ε) :
    t.insert item = t.modify item.owner (t.attach item) :=
  rfl

/-- Where there is no such owner, nothing is added. -/
theorem insert_eq_self {t : Tree ε} {item : Item ε} (absent : item.owner ∉ t.root.indices) :
    t.insert item = t := by
  rw [insert, modify, Node.modify_eq_self absent]

theorem keepsAnchors_attach {V : ε → Prop} (t : Tree ε) {item : Item ε}
    (holds : item.content.Holds V) : Property.KeepsAnchors V (t.attach item) := by
  intro owner anchored
  refine ⟨rfl, Property.anchoredAll_append.mpr ⟨anchored, ?_, trivial⟩⟩
  exact item.anchored_property holds owner.info t.size

theorem indices_attach (t : Tree ε) (item : Item ε) (owner : Node ε) :
    (t.attach item owner).indices = owner.indices ++ (item.property owner.info t.size).indices := by
  simp [attach, Node.indices, Property.indicesAll_append, Property.indicesAll]

namespace WellFormed

variable {V : ε → Prop} {t : Tree ε}

theorem nodup_indices (h : t.WellFormed V) : t.root.indices.Nodup :=
  h.numbered.nodup_iff.mpr List.nodup_range

/-- Adding a property adds the number of the node in it, if there is one. -/
theorem indices_insert (h : t.WellFormed V) {item : Item ε} (present : item.owner ∈ t.root.indices)
    (owner : NodeInfo) :
    (t.insert item).root.indices.Perm
      (t.root.indices ++ (item.property owner t.size).indices) := by
  obtain ⟨added, uniform, -⟩ := item.indices_property t.size
  refine Node.indices_modify (fun n => ?_) h.nodup_indices present
  rw [← attach, indices_attach, uniform, uniform]

theorem size_insert (h : t.WellFormed V) {item : Item ε} (present : item.owner ∈ t.root.indices)
    (owner : NodeInfo) :
    (t.insert item).size = t.size + (item.property owner t.size).indices.length := by
  rw [size, (h.indices_insert present owner).length_eq, List.length_append]
  rfl

/-- Adding a property numbers the new node, if there is one, next. -/
theorem numbered_insert (h : t.WellFormed V) (item : Item ε) :
    (t.insert item).root.indices.Perm (List.range (t.insert item).size) := by
  by_cases present : item.owner ∈ t.root.indices
  · obtain ⟨added, uniform, next⟩ := item.indices_property t.size
    have grown := h.indices_insert present default
    have size_eq := h.size_insert present default
    have numbers : List.range (t.size + added.length) = List.range t.size ++ added := by
      rcases next with rfl | rfl
      · exact List.range_succ
      · exact (List.append_nil _).symm
    rw [uniform] at grown size_eq
    rw [size_eq, numbers]
    exact grown.trans (h.numbered.append_right added)
  · rw [insert_eq_self present]
    exact h.numbered

/-- Adding a property keeps a tree well formed. -/
theorem insert (h : t.WellFormed V) {item : Item ε} (holds : item.content.Holds V) :
    (t.insert item).WellFormed V := by
  refine ⟨?_, ?_, h.numbered_insert item⟩
  · rw [insert_eq_modify, modify, Node.modify]
    split <;> exact h.parent_root
  · rw [insert_eq_modify, modify, Node.modify]
    split
    · exact (t.keepsAnchors_attach holds t.root h.anchored).2
    · exact h.anchored.modifyAll (t.keepsAnchors_attach holds)

/-- Adding properties one after the other keeps a tree well formed. -/
theorem insertAll {items : List (Item ε)} (h : t.WellFormed V)
    (holds : ∀ item ∈ items, item.content.Holds V) : (t.insertAll items).WellFormed V := by
  induction items generalizing t with
  | nil => exact h
  | cons item rest ih =>
    refine ih (h.insert (holds item List.mem_cons_self)) ?_
    exact fun other member => holds other (List.mem_cons_of_mem item member)

end WellFormed

end Tree

/-! ### Untouched trees -/

/-- The node has no type and is not bound. -/
def NodeInfo.IsUntouched (node : NodeInfo) : Prop := node.type = none ∧ node.binding = .unbound

namespace Property

mutual

/-- Nothing in the property is bound, and no node in it has a type. -/
def Untouched : Property ε → Prop
  | scalar info _ | list info _ | reference info _ => info.binding = .unbound
  | nested info node properties =>
    info.binding = .unbound ∧ node.IsUntouched ∧ UntouchedAll properties

/-- Nothing in the properties is bound, and no node in them has a type. -/
def UntouchedAll : List (Property ε) → Prop
  | [] => True
  | p :: rest => p.Untouched ∧ UntouchedAll rest

end

theorem untouchedAll_append {ps qs : List (Property ε)} :
    UntouchedAll (ps ++ qs) ↔ UntouchedAll ps ∧ UntouchedAll qs := by
  induction ps with
  | nil => simp [UntouchedAll]
  | cons p ps ih => simp only [List.cons_append, UntouchedAll, ih, and_assoc]

/-- A change of nodes that keeps what is known of a node, and binds none of its properties. -/
def KeepsUntouched (f : Node ε → Node ε) : Prop :=
  ∀ n, UntouchedAll n.properties → (f n).info = n.info ∧ UntouchedAll (f n).properties

mutual

theorem Untouched.modify {i : Nat} {f : Node ε → Node ε} (keeps : KeepsUntouched f) :
    ∀ {p : Property ε}, p.Untouched → (p.modify i f).Untouched
  | scalar _ _, h | list _ _, h | reference _ _, h => h
  | nested _ node properties, ⟨unbound, untouched, below⟩ => by
    rw [Property.modify]
    split
    · obtain ⟨info_eq, kept⟩ := keeps ⟨node, properties⟩ below
      simp only [Untouched, info_eq]
      exact ⟨unbound, untouched, kept⟩
    · exact ⟨unbound, untouched, below.modifyAll keeps⟩

/-- A change of one node leaves properties untouched. -/
theorem UntouchedAll.modifyAll {i : Nat} {f : Node ε → Node ε} (keeps : KeepsUntouched f) :
    ∀ {ps : List (Property ε)}, UntouchedAll ps → UntouchedAll (Property.modifyAll i f ps)
  | [], h => h
  | _ :: _, ⟨head, tail⟩ => ⟨head.modify keeps, tail.modifyAll keeps⟩

end

end Property

theorem Item.untouched_property (item : Item ε) (owner : NodeInfo) (index : Nat) :
    (item.property owner index).Untouched := by
  obtain ⟨_, _, _, content⟩ := item
  cases content with
  | scalar _ | list _ | reference _ => exact rfl
  | node _ => exact ⟨rfl, ⟨rfl, rfl⟩, trivial⟩

/-- No node of the tree has a type, and nothing in it is bound. -/
structure Tree.Untouched (t : Tree ε) : Prop where
  root : t.root.info.IsUntouched
  properties : Property.UntouchedAll t.root.properties

namespace Tree

theorem keepsUntouched_attach (t : Tree ε) (item : Item ε) :
    Property.KeepsUntouched (t.attach item) := by
  intro owner untouched
  exact ⟨rfl, Property.untouchedAll_append.mpr
    ⟨untouched, item.untouched_property owner.info t.size, trivial⟩⟩

namespace Untouched

variable {t : Tree ε}

theorem insert (h : t.Untouched) (item : Item ε) : (t.insert item).Untouched := by
  have keeps := t.keepsUntouched_attach item
  rw [insert_eq_modify, modify, Node.modify]
  split
  · exact ⟨h.root, (keeps t.root h.properties).2⟩
  · exact ⟨h.root, h.properties.modifyAll keeps⟩

/-- Adding properties one after the other leaves a tree untouched. -/
theorem insertAll (items : List (Item ε)) (h : t.Untouched) : (t.insertAll items).Untouched := by
  induction items generalizing t with
  | nil => exact h
  | cons item rest ih => exact ih (h.insert item)

end Untouched

end Tree

/-! ### Trees of literals -/

/-- The content with every value replaced. -/
def Content.map {δ : Type} (f : δ → ε) : Content δ → Content ε
  | scalar value => scalar (f value)
  | list items => list (items.map f)
  | node name => node name
  | reference name => reference name

/-- The item with every value replaced. -/
def Item.map {δ : Type} (f : δ → ε) (item : Item δ) : Item ε :=
  ⟨item.owner, item.key, item.span, item.content.map f⟩

/-- The literal has the type it was written with. -/
def LiteralExpr.IsNatural (e : LiteralExpr) : Prop := e.type = e.value.naturalType

/-- The tree that is built from its root by adding properties in order, the values being literals at
their places. -/
def Tree.ofLiterals (name : String) (span : Span) (items : List (Item (Literal × Span))) :
    Tree LiteralExpr :=
  (new name span).insertAll (items.map (·.map fun (value, place) => .ofLiteral value place))

theorem Content.holds_map_ofLiteral (content : Content (Literal × Span)) :
    (content.map fun (value, place) => LiteralExpr.ofLiteral value place).Holds
      LiteralExpr.IsNatural := by
  cases content with
  | scalar _ => exact rfl
  | list items =>
    intro e member
    obtain ⟨_, _, rfl⟩ := List.mem_map.mp member
    exact rfl
  | node _ | reference _ => trivial

/-- The tree was built from its root by adding properties, with literals as they are written. -/
def Tree.IsFresh (t : Tree LiteralExpr) : Prop := ∃ name span items, t = ofLiterals name span items

/-- Every tree built from literals is well formed. -/
theorem Tree.IsFresh.wellFormed {t : Tree LiteralExpr} (fresh : t.IsFresh) :
    t.WellFormed LiteralExpr.IsNatural := by
  obtain ⟨name, span, items, rfl⟩ := fresh
  refine (wellFormed_new _ name span).insertAll fun item member => ?_
  obtain ⟨original, _, rfl⟩ := List.mem_map.mp member
  exact original.content.holds_map_ofLiteral

/-- No node of a tree built from literals has a type, and nothing in it is bound. -/
theorem Tree.IsFresh.untouched {t : Tree LiteralExpr} (fresh : t.IsFresh) : t.Untouched := by
  obtain ⟨name, span, items, rfl⟩ := fresh
  exact Untouched.insertAll _ ⟨⟨rfl, rfl⟩, trivial⟩

end Componentry
