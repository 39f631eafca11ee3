import Componentry.Library.Hierarchy
import Mathlib.Data.Nat.Find
import Mathlib.Logic.Relation

/-!
# Steps up the hierarchy

The supertypes of a class were defined by layers: each layer has the direct supertypes of the one
before that were not met earlier, and there are at most as many layers as edges and one more. Here
they are compared with the chains of edges that lead up from the class. A name stands in the layer
whose number is the least length of such a chain, and the bound on the number of layers cuts nothing
off.

## Main definitions

* `Hierarchy.IsDirect` — one class is a direct supertype of another
* `Hierarchy.ReachesIn` — a chain of a given length leads from one class up to another
* `Hierarchy.IsAt` — the least length of a chain
* `Hierarchy.Explored` — what is known when a layer has been reached

## Main results

* `Hierarchy.Explored.step` — one layer leads to the next
* `Hierarchy.Explored.mem_layersFrom` — no name that can be reached is cut off
* `Hierarchy.distance_eq_some_iff` — the distance is the least length of a chain
* `Hierarchy.isSubtype_iff` — the supertypes are what can be reached
-/

namespace Componentry.Hierarchy

variable {h : Hierarchy} {a b c d : ClassName} {k n : Nat} {seen layer : List ClassName}

/-- The second class is a direct supertype of the first. -/
def IsDirect (h : Hierarchy) (sub sup : ClassName) : Prop := (sub, sup) ∈ h.edges

/-- A chain of the given number of edges leads from the first class up to the second. -/
def ReachesIn (h : Hierarchy) : Nat → ClassName → ClassName → Prop
  | 0, a, b => a = b
  | n + 1, a, b => ∃ c, h.ReachesIn n a c ∧ h.IsDirect c b

/-- The least number of edges on a chain from the first class up to the second. -/
def IsAt (h : Hierarchy) (a : ClassName) (n : Nat) (b : ClassName) : Prop :=
  h.ReachesIn n a b ∧ ∀ m < n, ¬ h.ReachesIn m a b

/-- Chains are what the reflexive and transitive closure is made of. -/
theorem reflTransGen_iff : Relation.ReflTransGen h.IsDirect a b ↔ ∃ n, h.ReachesIn n a b := by
  constructor
  · intro reached
    induction reached with
    | refl => exact ⟨0, rfl⟩
    | tail _ edge ih =>
      obtain ⟨n, chain⟩ := ih
      exact ⟨n + 1, _, chain, edge⟩
  · rintro ⟨n, chain⟩
    induction n generalizing b with
    | zero =>
      obtain rfl := chain
      exact .refl
    | succ n ih =>
      obtain ⟨c, chain, edge⟩ := chain
      exact (ih chain).tail edge

/-- Chains are joined where one ends and the other starts. -/
theorem ReachesIn.trans {m : Nat} (first : h.ReachesIn m a b) (second : h.ReachesIn n b c) :
    h.ReachesIn (m + n) a c := by
  induction n generalizing c with
  | zero =>
    obtain rfl := second
    exact first
  | succ n ih =>
    obtain ⟨d, chain, edge⟩ := second
    exact ⟨d, ih chain, edge⟩

/-- If there is a chain at all, there is one of least length. -/
theorem ReachesIn.exists_isAt (chain : h.ReachesIn n a b) : ∃ m ≤ n, h.IsAt a m b := by
  classical
  have some_chain : ∃ m, h.ReachesIn m a b := ⟨n, chain⟩
  exact ⟨Nat.find some_chain, Nat.find_min' some_chain chain, Nat.find_spec some_chain,
    fun _ less => Nat.find_min some_chain less⟩

namespace IsAt

theorem unique {m : Nat} (first : h.IsAt a m b) (second : h.IsAt a n b) : m = n := by
  rcases Nat.lt_trichotomy m n with less | same | more
  · exact absurd first.1 (second.2 m less)
  · exact same
  · exact absurd second.1 (first.2 n more)

/-- A shortest chain is shortest up to its last edge. -/
theorem pred (far : h.IsAt a (n + 1) b) : ∃ c, h.IsAt a n c ∧ h.IsDirect c b := by
  obtain ⟨⟨c, chain, edge⟩, least⟩ := far
  refine ⟨c, ⟨chain, fun m less shorter => ?_⟩, edge⟩
  exact least (m + 1) (Nat.succ_lt_succ less) ⟨c, shorter, edge⟩

/-- On the way to a class there is one at every lesser distance. -/
theorem exists_of_le (far : h.IsAt a n b) (below : k ≤ n) : ∃ c, h.IsAt a k c := by
  induction n generalizing b with
  | zero =>
    obtain rfl := Nat.le_zero.mp below
    exact ⟨b, far⟩
  | succ n ih =>
    rcases Nat.le_succ_iff.mp below with earlier | rfl
    · obtain ⟨c, nearer, -⟩ := far.pred
      exact ih nearer earlier
    · exact ⟨b, far⟩

end IsAt

/-! ### Layers -/

theorem mem_nextLayer : d ∈ h.nextLayer seen layer ↔ (∃ c ∈ layer, h.IsDirect c d) ∧ d ∉ seen := by
  simp [nextLayer, IsDirect]

/-- What is known when the layer of the given number has been reached: which names it has, and which
have been met so far. -/
structure Explored (h : Hierarchy) (a : ClassName) (k : Nat) (seen layer : List ClassName) :
    Prop where
  mem_layer : ∀ b, b ∈ layer ↔ h.IsAt a k b
  mem_seen : ∀ b, b ∈ seen ↔ ∃ m ≤ k, h.IsAt a m b

/-- The ends of edges that have not been met. -/
def unseen (h : Hierarchy) (seen : List ClassName) : List ClassName :=
  (h.edges.map (·.2)).filter (· ∉ seen)

theorem explored_start (h : Hierarchy) (a : ClassName) : h.Explored a 0 [a] [a] := by
  have self : ∀ b, b ∈ [a] ↔ h.IsAt a 0 b := by
    intro b
    simp [IsAt, ReachesIn, eq_comm]
  refine ⟨self, fun b => ?_⟩
  rw [self]
  constructor
  · intro here
    exact ⟨0, Nat.le_refl 0, here⟩
  · rintro ⟨m, small, here⟩
    obtain rfl := Nat.le_zero.mp small
    exact here

namespace Explored

/-- One layer leads to the next: what comes up for the first time after `k` steps takes `k + 1`. -/
theorem mem_nextLayer (reached : h.Explored a k seen layer) (b : ClassName) :
    b ∈ h.nextLayer seen layer ↔ h.IsAt a (k + 1) b := by
  rw [Hierarchy.mem_nextLayer, reached.mem_seen]
  constructor
  · rintro ⟨⟨c, inside, edge⟩, new⟩
    refine ⟨⟨c, ((reached.mem_layer c).mp inside).1, edge⟩, fun m less shorter => new ?_⟩
    obtain ⟨least, le, here⟩ := shorter.exists_isAt
    exact ⟨least, Nat.le_trans le (Nat.lt_succ_iff.mp less), here⟩
  · intro far
    obtain ⟨c, near, edge⟩ := far.pred
    refine ⟨⟨c, (reached.mem_layer c).mpr near, edge⟩, ?_⟩
    rintro ⟨m, le, here⟩
    have same := here.unique far
    omega

theorem step (reached : h.Explored a k seen layer) :
    h.Explored a (k + 1) (seen ++ h.nextLayer seen layer) (h.nextLayer seen layer) := by
  refine ⟨reached.mem_nextLayer, fun b => ?_⟩
  rw [List.mem_append, reached.mem_seen, reached.mem_nextLayer]
  constructor
  · rintro (⟨m, le, here⟩ | here)
    · exact ⟨m, Nat.le_succ_of_le le, here⟩
    · exact ⟨k + 1, Nat.le_refl _, here⟩
  · rintro ⟨m, le, here⟩
    rcases Nat.le_succ_iff.mp le with earlier | rfl
    · exact Or.inl ⟨m, earlier, here⟩
    · exact Or.inr here

/-- A layer that is not empty takes up the end of an edge. -/
theorem length_unseen_lt (reached : h.Explored a k seen layer) (far : h.IsAt a (k + 1) b) :
    (h.unseen (seen ++ h.nextLayer seen layer)).length < (h.unseen seen).length := by
  have inside : b ∈ h.nextLayer seen layer := (reached.mem_nextLayer b).mpr far
  obtain ⟨⟨c, -, edge⟩, new⟩ := Hierarchy.mem_nextLayer.mp inside
  have met : b ∈ h.unseen seen :=
    List.mem_filter.mpr ⟨List.mem_map_of_mem edge, decide_eq_true new⟩
  have fewer : h.unseen (seen ++ h.nextLayer seen layer) =
      (h.unseen seen).filter (· ∉ h.nextLayer seen layer) := by
    simp only [unseen, List.filter_filter]
    refine List.filter_congr fun d _ => ?_
    simp [Bool.and_comm]
  rw [fewer]
  refine List.length_filter_lt_length_iff_exists.mpr ⟨b, met, ?_⟩
  simpa using inside

/-- What stands in a layer is at its distance. -/
theorem isAt_of_mem (reached : h.Explored a k seen layer) {i : Nat} {found : List ClassName}
    (there : (h.layersFrom n seen layer)[i]? = some found) (inside : b ∈ found) :
    h.IsAt a (k + i) b := by
  induction n generalizing k seen layer i with
  | zero => simp [layersFrom] at there
  | succ n ih =>
    cases layer with
    | nil => simp [layersFrom] at there
    | cons c cs =>
      cases i with
      | zero =>
        obtain rfl : c :: cs = found := by simpa [layersFrom] using there
        exact (reached.mem_layer b).mp inside
      | succ i =>
        have later := ih reached.step (by simpa [layersFrom] using there)
        rwa [Nat.add_right_comm] at later

/-- No name that can be reached is cut off, as long as more layers may follow than ends of edges are
left. -/
theorem mem_layersFrom (reached : h.Explored a k seen layer)
    (room : (h.unseen seen).length < n) {i : Nat} (far : h.IsAt a (k + i) b) :
    ∃ found, (h.layersFrom n seen layer)[i]? = some found ∧ b ∈ found := by
  induction n generalizing k seen layer i with
  | zero => exact absurd room (Nat.not_lt_zero _)
  | succ n ih =>
    obtain ⟨c, here⟩ := far.exists_of_le (Nat.le_add_right k i)
    have inside := (reached.mem_layer c).mpr here
    cases layer with
    | nil => cases inside
    | cons c cs =>
      cases i with
      | zero => exact ⟨c :: cs, rfl, (reached.mem_layer b).mpr far⟩
      | succ i =>
        have next : k + (i + 1) = k + 1 + i := by omega
        rw [next] at far
        obtain ⟨d, above⟩ := far.exists_of_le (Nat.le_add_right (k + 1) i)
        have fewer := reached.length_unseen_lt above
        obtain ⟨found, there, member⟩ := ih reached.step (by omega) far
        exact ⟨found, by simpa [layersFrom] using there, member⟩

end Explored

theorem length_unseen_le (h : Hierarchy) (seen : List ClassName) :
    (h.unseen seen).length ≤ h.edges.length := by
  simpa [unseen] using List.length_filter_le (· ∉ seen) (h.edges.map (·.2))

/-- A name stands in the layer whose number is the least length of a chain. -/
theorem mem_layers_iff : (∃ layer, (h.layers a)[n]? = some layer ∧ b ∈ layer) ↔ h.IsAt a n b := by
  have start := h.explored_start a
  constructor
  · rintro ⟨layer, there, inside⟩
    simpa using start.isAt_of_mem there inside
  · intro far
    exact start.mem_layersFrom (Nat.lt_succ_of_le (h.length_unseen_le [a])) (by simpa using far)

/-- The distance is the least length of a chain. -/
theorem distance_eq_some_iff : h.distance a b = some n ↔ h.IsAt a n b := by
  rw [distance, List.findIdx?_eq_some_iff_getElem, ← mem_layers_iff]
  constructor
  · rintro ⟨inside, member, -⟩
    exact ⟨_, List.getElem?_eq_getElem inside, of_decide_eq_true member⟩
  · rintro ⟨layer, there, member⟩
    obtain ⟨inside, rfl⟩ := List.getElem?_eq_some_iff.mp there
    refine ⟨inside, decide_eq_true member, fun m less => ?_⟩
    -- A name that stood in an earlier layer, too, would have two distances.
    simp only [decide_eq_true_eq]
    intro earlier
    have first := mem_layers_iff.mp ⟨_, List.getElem?_eq_getElem (Nat.lt_trans less inside),
      earlier⟩
    have second := mem_layers_iff.mp ⟨_, there, member⟩
    exact Nat.ne_of_lt less (first.unique second)

theorem distance_self (h : Hierarchy) (a : ClassName) : h.distance a a = some 0 :=
  distance_eq_some_iff.mpr ⟨rfl, fun _ less => absurd less (Nat.not_lt_zero _)⟩

/-- The way by a class in between is no shorter. -/
theorem distance_trans {m : Nat} (first : h.distance a b = some m)
    (second : h.distance b c = some n) : ∃ k ≤ m + n, h.distance a c = some k := by
  have chain := (distance_eq_some_iff.mp first).1.trans (distance_eq_some_iff.mp second).1
  obtain ⟨k, le, near⟩ := chain.exists_isAt
  exact ⟨k, le, distance_eq_some_iff.mpr near⟩

/-- The supertypes of a class are the names that chains of edges lead to. -/
theorem isSubtype_iff : h.isSubtype a b = true ↔ Relation.ReflTransGen h.IsDirect a b := by
  rw [isSubtype, Option.isSome_iff_exists, reflTransGen_iff]
  constructor
  · rintro ⟨n, found⟩
    exact ⟨n, (distance_eq_some_iff.mp found).1⟩
  · rintro ⟨n, chain⟩
    obtain ⟨m, -, near⟩ := chain.exists_isAt
    exact ⟨m, distance_eq_some_iff.mpr near⟩

end Componentry.Hierarchy
