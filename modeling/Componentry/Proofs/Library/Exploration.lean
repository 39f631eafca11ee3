import Componentry.Proofs.Library.ShortestWay
import Mathlib.Data.List.Nodup
import Mathlib.Order.Bounds.Defs

/-!
# The order of exploration

A hierarchy is made by recording edges one by one, some of them perhaps more than once. Two
questions are asked of it: how far one class is above another, and which classes are above a given
one, nearest first. Both are answered exactly, whatever was recorded, cycles and classes above
themselves included. The distance is the least number of recorded edges on a chain, and a search
that always goes on with a class of least score ends with the same number. The list of supertypes
has every class at some distance, each once, in the order in which a breadth-first search with a
queue comes to them. So the layers answer both questions as two searches would, each with a queue of
its own.

## Main definitions

* `Hierarchy.record` is the hierarchy in which edges have been recorded one by one
* `Hierarchy.Leads` — a chain of recorded edges leads from one class up to another
* `Hierarchy.Visits` — a search with a queue comes to classes in a given order

## Main results

* `Hierarchy.pairwise_ancestors` — no supertype is listed twice, and none before a nearer one
* `Hierarchy.Visits.of_nextLayer` — the search takes a whole layer before it comes to the next one
* `Hierarchy.visits_ancestors` — the supertypes are listed in the order of the search
* `Hierarchy.queries_exact` — distances and supertypes are exact after any edges were recorded
-/

namespace Componentry.Hierarchy

variable {h : Hierarchy} {a b c : ClassName} {k n : Nat} {seen layer : List ClassName}

/-! ### Recorded edges -/

section Recorded

variable {recorded : List (ClassName × ClassName)} {path : List ClassName}

/-- The hierarchy in which the given edges have been recorded, one after the other. -/
def record (recorded : List (ClassName × ClassName)) : Hierarchy :=
  recorded.foldl (fun h edge => h.insert edge.1 edge.2) empty

/-- The direct supertypes are those that were recorded, however often. -/
theorem isDirect_record : (record recorded).IsDirect a b ↔ (a, b) ∈ recorded := by
  have collected (h : Hierarchy) :
      (recorded.foldl (fun h edge => h.insert edge.1 edge.2) h).IsDirect a b ↔
      (a, b) ∈ recorded ∨ h.IsDirect a b := by
    induction recorded generalizing h with
    | nil => simp
    | cons edge rest ih =>
      rw [List.foldl_cons, ih, IsDirect, mem_edges_insert, List.mem_cons]
      tauto
  rw [record, collected]
  simp [IsDirect, empty]

/-- Recorded edges lead from the first class up to the second. The path has the classes that come
after the first one, so it is as long as there are edges on the way. -/
def Leads (recorded : List (ClassName × ClassName)) : ClassName → List ClassName → ClassName → Prop
  | a, [], b => a = b
  | a, c :: path, b => (a, c) ∈ recorded ∧ Leads recorded c path b

/-- A path goes on by one more edge. -/
theorem Leads.concat (leads : Leads recorded a path b) (edge : (b, c) ∈ recorded) :
    Leads recorded a (path ++ [c]) c := by
  induction path generalizing a with
  | nil =>
    obtain rfl := leads
    exact ⟨edge, rfl⟩
  | cons d path ih => exact ⟨leads.1, ih leads.2⟩

/-- The chains of edges of a hierarchy are the paths of recorded edges. -/
theorem reachesIn_record :
    (record recorded).ReachesIn n a b ↔ ∃ path, Leads recorded a path b ∧ path.length = n := by
  -- A chain grows at its upper end, while a path is read from its lower one.
  constructor
  · intro chain
    induction n generalizing b with
    | zero => exact ⟨[], chain, rfl⟩
    | succ n ih =>
      obtain ⟨c, chain, edge⟩ := chain
      obtain ⟨path, leads, rfl⟩ := ih chain
      exact ⟨path ++ [b], leads.concat (isDirect_record.mp edge), List.length_append⟩
  · rintro ⟨path, leads, rfl⟩
    induction path generalizing a with
    | nil => exact leads
    | cons c path ih =>
      have step : (record recorded).ReachesIn 1 a c := ⟨a, rfl, isDirect_record.mpr leads.1⟩
      rw [List.length_cons, Nat.add_comm]
      exact step.trans (ih leads.2)

/-- The distance is the least number of recorded edges on a path. -/
theorem distance_record : (record recorded).distance a b = some n ↔
    IsLeast {k | ∃ path, Leads recorded a path b ∧ path.length = k} n := by
  rw [distance_eq_some_iff, IsAt]
  simp only [reachesIn_record]
  refine and_congr_right fun _ => ⟨fun least k found => ?_, fun least m less found => ?_⟩
  · exact Nat.not_lt.mp fun less => least k less found
  · exact Nat.not_lt.mpr (least found) less

/-- There is a distance wherever recorded edges lead from the one class up to the other. -/
theorem exists_distance_record :
    (∃ n, (record recorded).distance a b = some n) ↔ ∃ path, Leads recorded a path b := by
  constructor
  · rintro ⟨n, found⟩
    obtain ⟨path, leads, -⟩ := reachesIn_record.mp (distance_eq_some_iff.mp found).1
    exact ⟨path, leads⟩
  · rintro ⟨path, leads⟩
    obtain ⟨n, -, near⟩ := (reachesIn_record.mpr ⟨path, leads, rfl⟩).exists_isAt
    exact ⟨n, distance_eq_some_iff.mpr near⟩

end Recorded

/-! ### The list of supertypes -/

/-- The supertypes of a class are the names that have a distance from it. -/
theorem mem_ancestors_iff : b ∈ h.ancestors a ↔ ∃ n, h.distance a b = some n := by
  simp only [ancestors, List.mem_flatten, distance_eq_some_iff, ← mem_layers_iff]
  constructor
  · rintro ⟨layer, listed, inside⟩
    obtain ⟨n, there⟩ := List.mem_iff_getElem?.mp listed
    exact ⟨n, layer, there, inside⟩
  · rintro ⟨n, layer, there, inside⟩
    exact ⟨layer, List.mem_of_getElem? there, inside⟩

theorem head?_ancestors (h : Hierarchy) (a : ClassName) : (h.ancestors a).head? = some a := rfl

/-- What is left of a list without its repetitions has none. -/
theorem nodup_eraseDups (names : List ClassName) : names.eraseDups.Nodup := by
  -- The rest of the list is filtered before the recursion goes on, so this is by the length.
  induction size : names.length using Nat.strongRecOn generalizing names with
  | ind k ih =>
    cases names with
    | nil => exact List.nodup_nil
    | cons c rest =>
      rw [List.eraseDups_cons]
      have shorter : (rest.filter fun d => !d == c).length < k := by
        rw [← size, List.length_cons]
        exact Nat.lt_succ_of_le (List.length_filter_le _ _)
      refine List.nodup_cons.mpr ⟨?_, ih _ shorter _ rfl⟩
      simp

/-- No layer has a name twice. -/
theorem nodup_of_mem_layersFrom (distinct : layer.Nodup) {found : List ClassName}
    (listed : found ∈ h.layersFrom n seen layer) : found.Nodup := by
  induction n generalizing seen layer with
  | zero => cases listed
  | succ n ih =>
    cases layer with
    | nil => cases listed
    | cons c cs =>
      rcases List.mem_cons.mp listed with rfl | later
      · exact distinct
      · exact ih (nodup_eraseDups _) later

/-- No supertype is listed twice, and none is listed before a nearer one. -/
theorem pairwise_ancestors (h : Hierarchy) (a : ClassName) :
    (h.ancestors a).Pairwise fun b c => b ≠ c ∧ ∀ m n, h.IsAt a m b → h.IsAt a n c → m ≤ n := by
  rw [ancestors, List.pairwise_flatten]
  constructor
  · intro layer listed
    -- All names of a layer are at the same distance.
    obtain ⟨k, there⟩ := List.mem_iff_getElem?.mp listed
    have distinct : layer.Nodup := nodup_of_mem_layersFrom (List.nodup_singleton a) listed
    refine List.Pairwise.imp_of_mem ?_ distinct
    intro b c inside inside' differ
    refine ⟨differ, fun m n near far => ?_⟩
    have same := near.unique (mem_layers_iff.mp ⟨layer, there, inside⟩)
    have same' := far.unique (mem_layers_iff.mp ⟨layer, there, inside'⟩)
    omega
  · -- An earlier layer has a lesser number, and that is the distance of its names.
    rw [List.pairwise_iff_getElem]
    intro i j low high before b inside c inside'
    have near := mem_layers_iff.mp ⟨_, List.getElem?_eq_getElem low, inside⟩
    have far := mem_layers_iff.mp ⟨_, List.getElem?_eq_getElem high, inside'⟩
    constructor
    · rintro rfl
      exact Nat.ne_of_lt before (near.unique far)
    · intro m n at_m at_n
      have same := at_m.unique near
      have same' := at_n.unique far
      omega

/-! ### Search with a queue -/

/-- The direct supertypes of a class that were not met before, each once. -/
def discovered (h : Hierarchy) (seen : List ClassName) (c : ClassName) : List ClassName :=
  ((h.supers c).filter (· ∉ seen)).eraseDups

/-- A breadth-first search with the given queue comes to the given classes in this order, when
`seen` has been met so far: the first class of the queue is visited, and what it discovers waits at
the end. -/
inductive Visits (h : Hierarchy) : List ClassName → List ClassName → List ClassName → Prop where
  | done (seen : List ClassName) : h.Visits [] seen []
  | visit {c : ClassName} {queue seen visited : List ClassName}
      (later : h.Visits (queue ++ h.discovered seen c) (seen ++ h.discovered seen c) visited) :
      h.Visits (c :: queue) seen (c :: visited)

/-- The next layer has what the classes of a layer discover one after the other. -/
theorem nextLayer_cons (c : ClassName) (cs : List ClassName) : h.nextLayer seen (c :: cs) =
    h.discovered seen c ++ h.nextLayer (seen ++ h.discovered seen c) cs := by
  rw [nextLayer, List.flatMap_cons, List.filter_append, List.eraseDups_append]
  -- What the first class discovers counts as met for the classes after it.
  congr 2
  rw [List.removeAll, List.filter_filter]
  refine List.filter_congr fun d _ => ?_
  by_cases met : d ∈ seen <;> simp [discovered, met]

/-- The search visits the classes of a layer, one after the other, before it comes to the next
layer. -/
theorem Visits.of_nextLayer {queue visited : List ClassName}
    (later : h.Visits (queue ++ h.nextLayer seen layer) (seen ++ h.nextLayer seen layer) visited) :
    h.Visits (layer ++ queue) seen (layer ++ visited) := by
  induction layer generalizing seen queue with
  | nil => simpa [nextLayer] using later
  | cons c cs ih =>
    -- The first class is visited, and what it discovers waits behind the rest of the layer.
    rw [nextLayer_cons, ← List.append_assoc, ← List.append_assoc] at later
    have rest := ih later
    rw [← List.append_assoc] at rest
    exact .visit rest

/-- The search visits one layer after the other, as long as more layers may follow than ends of
edges are left. -/
theorem Explored.visits (reached : h.Explored a k seen layer) (room : (h.unseen seen).length < n) :
    h.Visits layer seen (h.layersFrom n seen layer).flatten := by
  induction n generalizing k seen layer with
  | zero => exact absurd room (Nat.not_lt_zero _)
  | succ n ih =>
    cases layer with
    | nil => exact .done seen
    | cons c cs =>
      have next : h.Visits (h.nextLayer seen (c :: cs)) (seen ++ h.nextLayer seen (c :: cs))
          (h.layersFrom n (seen ++ h.nextLayer seen (c :: cs))
            (h.nextLayer seen (c :: cs))).flatten := by
        cases found : h.nextLayer seen (c :: cs) with
        | nil =>
          -- Nothing was discovered, so the search is over.
          cases n <;> exact .done _
        | cons d ds =>
          have above : h.IsAt a (k + 1) d := (reached.mem_nextLayer d).mp (by simp [found])
          have fewer := reached.length_unseen_lt above
          rw [← found]
          exact ih reached.step (by omega)
      have whole : h.Visits (c :: cs ++ []) seen _ := Visits.of_nextLayer next
      rwa [List.append_nil] at whole

/-- The supertypes of a class are listed in the order in which a search from this class comes to
them. -/
theorem visits_ancestors (h : Hierarchy) (a : ClassName) : h.Visits [a] [a] (h.ancestors a) :=
  (h.explored_start a).visits (Nat.lt_succ_of_le (h.length_unseen_le [a]))

/-! ### Exact answers -/

/-- The supertypes are listed with distances that never decrease. -/
theorem exists_steps_ancestors (h : Hierarchy) (a : ClassName) :
    ∃ steps : List Nat, (h.ancestors a).map (h.distance a) = steps.map some ∧
      steps.Pairwise (· ≤ ·) := by
  refine ⟨(h.ancestors a).map fun b => (h.distance a b).getD 0, ?_, ?_⟩
  · rw [List.map_map]
    refine List.map_congr_left fun b listed => ?_
    obtain ⟨n, found⟩ := mem_ancestors_iff.mp listed
    simp [found]
  · rw [List.pairwise_map]
    refine List.Pairwise.imp_of_mem ?_ (h.pairwise_ancestors a)
    rintro b c listed listed' ⟨-, ordered⟩
    obtain ⟨m, near⟩ := mem_ancestors_iff.mp listed
    obtain ⟨n, far⟩ := mem_ancestors_iff.mp listed'
    rw [near, far]
    exact ordered m n (distance_eq_some_iff.mp near) (distance_eq_some_iff.mp far)

/-- **Distances and supertypes are exact.** Edges have been recorded one by one, whichever they are
and however often. The distance between two classes is the least number of recorded edges that lead
from the first up to the second, and there is none exactly if no edges do so; a class is at distance
zero from itself, whether or not it was ever recorded. A search from the one class for the other
that always goes on with a class of least score never goes on forever, and whichever it takes of
several such classes, the score it ends with is the distance. The supertypes of a class are the
names that have a distance from it. The class itself comes first, no name comes twice, the distances
never decrease, and a breadth-first search comes to the names in the same order. -/
theorem queries_exact (recorded : List (ClassName × ClassName)) (a : ClassName) :
    let h := record recorded
    (∀ b n, h.distance a b = some n ↔
      IsLeast {k | ∃ path, Leads recorded a path b ∧ path.length = k} n) ∧
    (∀ b, h.distance a b = none ↔ ¬ ∃ path, Leads recorded a path b) ∧
    h.distance a a = some 0 ∧
    (∀ b, WellFounded (fun t s => h.Step b s t) ∧ (∃ s, h.Finds a b s) ∧
      ∀ s, h.Finds a b s → s.score? b = h.distance a b) ∧
    (∀ b, b ∈ h.ancestors a ↔ ∃ n, h.distance a b = some n) ∧
    (h.ancestors a).head? = some a ∧
    (h.ancestors a).Nodup ∧
    (∃ steps : List Nat,
      (h.ancestors a).map (h.distance a) = steps.map some ∧ steps.Pairwise (· ≤ ·)) ∧
    h.Visits [a] [a] (h.ancestors a) := by
  refine ⟨fun b n => distance_record, fun b => ?_, distance_self _ a,
    fun b => ⟨wellFounded_step _ b, exists_finds _ a b, fun s found => found.score?_eq⟩,
    fun b => mem_ancestors_iff, head?_ancestors _ a, ?_, exists_steps_ancestors _ a,
    visits_ancestors _ a⟩
  · rw [← exists_distance_record, not_exists]
    exact Option.eq_none_iff_forall_ne_some
  · exact (pairwise_ancestors _ a).imp fun both => both.1

-- The first edge is recorded twice, the second leads back, and the third leads nowhere else.
example :
    (record [(.topLevel "Left", .topLevel "Right"), (.topLevel "Right", .topLevel "Left"),
      (.topLevel "Left", .topLevel "Left"), (.topLevel "Left", .topLevel "Right"),
      (.topLevel "Right", .topLevel "Top")]).ancestors (.topLevel "Left") =
    [.topLevel "Left", .topLevel "Right", .topLevel "Top"] := by
  decide +kernel

end Componentry.Hierarchy
