import Componentry.ClassName

/-!
# The class hierarchy

A finite graph on class names whose edges lead from a class to its direct supertypes. Names need not
be known in advance, and the graph may have cycles. The supertypes of a class are explored in
layers: the class itself, its direct supertypes, theirs that were not met before, and so on.

A distance is any natural number. It is never more than the number of edges, so it is the same one
in 32 bits as long as there are fewer than `2 ^ 32` edges.

## Main definitions

* `Hierarchy` is the list of edges, newest first, without repetition
* `Hierarchy.layers` are the supertypes of a class by their number of steps
* `Hierarchy.distance`, `Hierarchy.ancestors`, `Hierarchy.isSubtype` are read off the layers
-/

namespace Componentry

/-- The direct subtype relation, as edges from subtype to supertype, newest first. -/
structure Hierarchy where
  edges : List (ClassName × ClassName)
  deriving DecidableEq, Inhabited

namespace Hierarchy

/-- No class has a supertype. -/
def empty : Hierarchy := ⟨[]⟩

/-- Records `sub` as a direct subtype of `sup`; an edge that is already there keeps its place. -/
def insert (h : Hierarchy) (sub sup : ClassName) : Hierarchy :=
  if (sub, sup) ∈ h.edges then h else ⟨(sub, sup) :: h.edges⟩

@[simp] theorem mem_edges_insert (h : Hierarchy) (sub sup : ClassName) (e : ClassName × ClassName) :
    e ∈ (h.insert sub sup).edges ↔ e = (sub, sup) ∨ e ∈ h.edges := by
  unfold insert
  split
  · exact ⟨.inr, fun he => he.elim (fun eq => eq ▸ ‹_›) id⟩
  · simp

/-- The direct supertypes of a class, the most recently recorded first. -/
def supers (h : Hierarchy) (c : ClassName) : List ClassName :=
  (h.edges.filter (·.1 = c)).map (·.2)

@[simp] theorem mem_supers (h : Hierarchy) (c d : ClassName) :
    d ∈ h.supers c ↔ (c, d) ∈ h.edges := by
  simp [supers]

/-- The direct supertypes of the classes of a layer that were not met before, each once, in the
order in which they are met. -/
def nextLayer (h : Hierarchy) (seen layer : List ClassName) : List ClassName :=
  ((layer.flatMap h.supers).filter (· ∉ seen)).eraseDups

/-- At most `n` nonempty layers, starting with `layer`, when `seen` has been met so far. -/
def layersFrom (h : Hierarchy) : Nat → List ClassName → List ClassName → List (List ClassName)
  | 0, _, _ => []
  | _ + 1, _, [] => []
  | n + 1, seen, c :: cs =>
    let next := h.nextLayer seen (c :: cs)
    (c :: cs) :: h.layersFrom n (seen ++ next) next

/-- The supertypes of a class by their number of steps, the class itself being layer zero. Every
layer but the first takes up the end of an edge that no other layer has, so there are at most as
many layers as edges and one more. -/
def layers (h : Hierarchy) (c : ClassName) : List (List ClassName) :=
  h.layersFrom (h.edges.length + 1) [c] [c]

/-- The least number of steps from a class up to another, if there is a way. -/
def distance (h : Hierarchy) (sub sup : ClassName) : Option Nat :=
  (h.layers sub).findIdx? (sup ∈ ·)

/-- A class is a subtype of itself and of everything above it. -/
def isSubtype (h : Hierarchy) (sub sup : ClassName) : Bool := (h.distance sub sup).isSome

/-- A class and all its supertypes, nearest first. -/
def ancestors (h : Hierarchy) (c : ClassName) : List ClassName := (h.layers c).flatten

end Hierarchy

end Componentry
