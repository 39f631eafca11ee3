import Componentry.Proofs.Bytecode.Placement
import Componentry.Proofs.Emission.SlotOrder
import Componentry.Proofs.Tree.Preorder

/-!
# Layout of slots in the code

A slot is in use in a stretch of the code. The stretches of a tree are laid out like the tree
itself: that of a node encloses those of the nodes in its properties, which come one behind the
other. This is a fact about code that is put together in three ways: from instructions alone, from
two parts, and from a node around the code of its properties.

## Main definitions

* `Contains` — the stretches of the children of a node lie in its own, in order
* `Layout` — a stretch of code in which the slots of nodes are laid out

## Main results

* `Layout.plain`, `Layout.append`, `Layout.enclose` — the three ways to put code together
* `Layout.getElem?_of_mem` — slots are listed by number
-/

namespace Componentry

variable {ε : Type}

/-- The stretches of the nodes come one behind the other. -/
def InOrder (spans : List (Node ε × LocalRange)) (nodes : List (Node ε)) : Prop :=
  nodes.Pairwise fun first second =>
    ∃ r s, (first, r) ∈ spans ∧ (second, s) ∈ spans ∧ r.stop ≤ s.start

theorem InOrder.mono {spans more : List (Node ε × LocalRange)} {nodes : List (Node ε)}
    (h : InOrder spans nodes) (grown : spans ⊆ more) : InOrder more nodes := by
  refine List.Pairwise.imp ?_ h
  rintro first second ⟨r, s, left, right, order⟩
  exact ⟨r, s, grown left, grown right, order⟩

/-- The stretches of the children of a node lie in its own and start behind it, one behind the
other. -/
structure Contains (spans : List (Node ε × LocalRange)) (node : Node ε) (range : LocalRange) :
    Prop where
  child : ∀ c ∈ node.children, ∃ r, (c, r) ∈ spans ∧ range.start < r.start ∧ r.stop ≤ range.stop
  order : InOrder spans node.children

theorem Contains.mono {spans more : List (Node ε × LocalRange)} {node : Node ε} {range : LocalRange}
    (h : Contains spans node range) (grown : spans ⊆ more) : Contains more node range := by
  refine ⟨fun c member => ?_, h.order.mono grown⟩
  obtain ⟨r, found, inside⟩ := h.child c member
  exact ⟨r, grown found, inside⟩

/-- The instruction stands in a stretch of the slot that it uses. -/
def Covered (spans : List (Node ε × LocalRange)) (e : Nat × Instruction) (slot : Nat) : Prop :=
  ∃ u ∈ spans, u.2.slot = slot ∧ u.2.start ≤ e.1 ∧ e.1 < u.2.stop

theorem Covered.mono {spans more : List (Node ε × LocalRange)} {e : Nat × Instruction} {slot : Nat}
    (h : Covered spans e slot) (grown : spans ⊆ more) : Covered more e slot := by
  obtain ⟨u, found, inside⟩ := h
  exact ⟨u, grown found, inside⟩

/-- The slots of nodes are laid out in the stretch of code between two offsets. They are numbered
from `count` on; apart from them the code uses one slot. The nodes in `outer` are those that no
other node encloses. -/
structure Layout (slot count start stop : Nat) (outer : List (Node ε))
    (spans : List (Node ε × LocalRange)) (placed : List (Nat × Instruction)) : Prop where
  stretch : Stretch start stop placed
  numbered : spans.map (·.2.slot) = List.range' count spans.length
  labelled : ∀ e ∈ spans, e.2.name = e.1.info.name ∧ e.1.info.type = some e.2.type
  bounds : ∀ e ∈ spans, start ≤ e.2.start ∧ e.2.start < e.2.stop ∧ e.2.stop ≤ stop
  starts : ∀ e ∈ spans, ∃ i, (e.2.start, i) ∈ placed
  stops : ∀ e ∈ spans, e.2.stop = stop ∨ ∃ i, (e.2.stop, i) ∈ placed
  contains : ∀ e ∈ spans, Contains spans e.1 e.2
  outer_mem : ∀ n ∈ outer, ∃ r, (n, r) ∈ spans
  outer_order : InOrder spans outer
  uses : ∀ e ∈ placed, ∀ s, e.2.slot? = some s → s = slot ∨ Covered spans e s

namespace Layout

variable {slot count start middle stop : Nat} {outer outer' : List (Node ε)}
  {spans spans' : List (Node ε × LocalRange)} {placed placed' : List (Nat × Instruction)}

/-- Instructions alone. -/
theorem plain (stretch : Stretch start stop placed)
    (uses : ∀ e ∈ placed, ∀ s, e.2.slot? = some s → s = slot) :
    Layout slot count start stop ([] : List (Node ε)) [] placed where
  stretch := stretch
  numbered := rfl
  labelled := by simp
  bounds := by simp
  starts := by simp
  stops := by simp
  contains := by simp
  outer_mem := by simp
  outer_order := List.Pairwise.nil
  uses e member s used := Or.inl (uses e member s used)

/-- Two parts, one behind the other. -/
theorem append (h : Layout slot count start middle outer spans placed)
    (h' : Layout slot (count + spans.length) middle stop outer' spans' placed') :
    Layout slot count start stop (outer ++ outer') (spans ++ spans') (placed ++ placed') where
  stretch := h.stretch.append h'.stretch
  numbered := by
    rw [List.map_append, h.numbered, h'.numbered, List.length_append, List.range'_append_1]
  labelled := List.forall_mem_append.mpr ⟨h.labelled, h'.labelled⟩
  bounds := by
    have left := h.stretch.le
    have right := h'.stretch.le
    refine List.forall_mem_append.mpr ⟨fun e member => ?_, fun e member => ?_⟩
    · have within := h.bounds e member
      omega
    · have within := h'.bounds e member
      omega
  starts := by
    refine List.forall_mem_append.mpr ⟨fun e member => ?_, fun e member => ?_⟩
    · exact (h.starts e member).imp fun _ => List.mem_append_left _
    · exact (h'.starts e member).imp fun _ => List.mem_append_right _
  stops := by
    refine List.forall_mem_append.mpr ⟨fun e member => ?_, fun e member => ?_⟩
    · rcases h.stops e member with last | ⟨i, found⟩
      · -- The stretch ends with the first part, where the second begins unless it is empty.
        rw [last]
        exact h'.stretch.first.imp id fun ⟨i, found⟩ => ⟨i, List.mem_append_right _ found⟩
      · exact Or.inr ⟨i, List.mem_append_left _ found⟩
    · exact (h'.stops e member).imp id fun ⟨i, found⟩ => ⟨i, List.mem_append_right _ found⟩
  contains := by
    refine List.forall_mem_append.mpr ⟨fun e member => ?_, fun e member => ?_⟩
    · exact (h.contains e member).mono (List.subset_append_left _ _)
    · exact (h'.contains e member).mono (List.subset_append_right _ _)
  outer_mem := by
    refine List.forall_mem_append.mpr ⟨fun n member => ?_, fun n member => ?_⟩
    · exact (h.outer_mem n member).imp fun _ => List.mem_append_left _
    · exact (h'.outer_mem n member).imp fun _ => List.mem_append_right _
  outer_order := by
    refine List.pairwise_append.mpr ⟨?_, ?_, ?_⟩
    · exact h.outer_order.mono (List.subset_append_left _ _)
    · exact h'.outer_order.mono (List.subset_append_right _ _)
    · -- Whatever is in the first part ends before anything in the second starts.
      intro first left second right
      obtain ⟨r, found⟩ := h.outer_mem first left
      obtain ⟨s, found'⟩ := h'.outer_mem second right
      refine ⟨r, s, List.mem_append_left _ found, List.mem_append_right _ found', ?_⟩
      exact Nat.le_trans (h.bounds _ found).2.2 (h'.bounds _ found').1
  uses := by
    refine List.forall_mem_append.mpr ⟨fun e member s used => ?_, fun e member s used => ?_⟩
    · exact (h.uses e member s used).imp id (·.mono (List.subset_append_left _ _))
    · exact (h'.uses e member s used).imp id (·.mono (List.subset_append_right _ _))

/-- A node around the code of its properties: first it is obtained, by instructions that set its
slot and may use that of its owner. -/
theorem enclose {node : Node ε} {type : StaticType} {got : List (Nat × Instruction)}
    (typed : node.info.type = some type) (obtained : Stretch start middle got)
    (nonempty : start < middle) (uses : ∀ e ∈ got, ∀ s, e.2.slot? = some s → s = slot ∨ s = count)
    (h : Layout count (count + 1) middle stop node.children spans placed) :
    Layout slot count start stop [node]
      ((node, ⟨count, node.info.name, type, start, stop⟩) :: spans) (got ++ placed) where
  stretch := obtained.append h.stretch
  numbered := by
    rw [List.map_cons, h.numbered, List.length_cons, List.range'_succ]
  labelled := List.forall_mem_cons.mpr ⟨⟨rfl, typed⟩, h.labelled⟩
  bounds := by
    have inner := h.stretch.le
    refine List.forall_mem_cons.mpr ⟨?_, fun e member => ?_⟩
    · dsimp only
      omega
    · have within := h.bounds e member
      omega
  starts := by
    refine List.forall_mem_cons.mpr ⟨?_, fun e member => ?_⟩
    · rcases obtained.first with same | ⟨i, found⟩
      · omega
      · exact ⟨i, List.mem_append_left _ found⟩
    · exact (h.starts e member).imp fun _ => List.mem_append_right _
  stops := by
    refine List.forall_mem_cons.mpr ⟨Or.inl rfl, fun e member => ?_⟩
    exact (h.stops e member).imp id fun ⟨i, found⟩ => ⟨i, List.mem_append_right _ found⟩
  contains := by
    refine List.forall_mem_cons.mpr ⟨⟨fun c member => ?_, ?_⟩, fun e member => ?_⟩
    · -- Its children are laid out behind the code that obtains it.
      obtain ⟨r, found⟩ := h.outer_mem c member
      refine ⟨r, List.mem_cons_of_mem _ found, ?_⟩
      have within := h.bounds _ found
      dsimp only at within ⊢
      omega
    · exact h.outer_order.mono (List.subset_cons_self _ _)
    · exact (h.contains e member).mono (List.subset_cons_self _ _)
  outer_mem := by
    intro n member
    obtain rfl := List.mem_singleton.mp member
    exact ⟨_, List.mem_cons_self⟩
  outer_order := List.pairwise_singleton _ _
  uses := by
    have whole := obtained.append h.stretch
    -- An instruction that uses the slot of the node stands in the stretch of the node, like all
    -- others.
    have own : ∀ e ∈ got ++ placed,
        Covered ((node, ⟨count, node.info.name, type, start, stop⟩) :: spans) e count :=
          fun e member =>
      ⟨_, List.mem_cons_self, rfl, whole.within e member⟩
    intro e member s used
    rcases List.mem_append.mp member with left | right
    · rcases uses e left s used with same | rfl
      · exact Or.inl same
      · exact Or.inr (own e member)
    · rcases h.uses e right s used with rfl | covered
      · exact Or.inr (own e member)
      · exact Or.inr (covered.mono (List.subset_cons_self _ _))

/-- The stretch of a slot is found by its number. -/
theorem getElem?_of_mem (h : Layout slot 0 start stop outer spans placed) {e : Node ε × LocalRange}
    (member : e ∈ spans) : (spans.map (·.2))[e.2.slot]? = some e.2 := by
  obtain ⟨i, found⟩ := List.mem_iff_getElem?.mp member
  have number : (spans.map (·.2.slot))[i]? = some e.2.slot := by
    rw [List.getElem?_map, found]
    rfl
  rw [h.numbered] at number
  obtain ⟨inside, same⟩ := List.getElem?_eq_some_iff.mp number
  rw [List.getElem_range'] at same
  have here : e.2.slot = i := by omega
  rw [here, List.getElem?_map, found]
  rfl

end Layout

end Componentry
