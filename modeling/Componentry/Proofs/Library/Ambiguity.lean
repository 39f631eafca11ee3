import Componentry.Proofs.Library.Lookup

/-!
# Lookups that are never ambiguous

Overload resolution fails to decide between two methods only if they cost the same. A primitive
argument converts to different types at different costs, and without arguments there is only one
list of parameters to match. Since no two visible methods have the same parameters, such lookups
find one method or none.

## Main definitions

* `Hierarchy.PricesApart` — methods with different parameters cost differently for given arguments
* `Library.Decides` — no lookup with given arguments is ambiguous

## Main results

* `Primitive.eq_of_cost_conversion` — a kind converts to different kinds at different costs
* `Hierarchy.select_ne_tied` — one of several methods with different costs is selected
* `Registry.decides_nil`, `Registry.decides_primitive` — what a registry decides
-/

namespace Componentry

/-! ### Costs -/

theorem Primitive.mem_all (kind : Primitive) : kind ∈ all := by
  cases kind <;> decide

/-- A kind converts to different kinds at different costs. -/
theorem Primitive.eq_of_cost_conversion {source target other : Primitive} {c d : Conversion}
    (first : source.conversion target = some c) (second : source.conversion other = some d)
    (same : c.cost = d.cost) : target = other := by
  have table : ∀ source ∈ all, ∀ target ∈ all, ∀ other ∈ all, ∀ c ∈ source.conversion target,
      ∀ d ∈ source.conversion other, c.cost = d.cost → target = other := by
    decide
  exact table source source.mem_all target target.mem_all other other.mem_all c first d second same

namespace Hierarchy

variable {h : Hierarchy} {args : List StaticType} {candidates : List Method}

/-- A primitive value converts to primitive types only. -/
theorem exists_of_conversion_primitive {source : Primitive} {target : StaticType} {c : Conversion}
    (found : h.conversion (.primitive source) target = some c) :
    ∃ kind, target = .primitive kind ∧ source.conversion kind = some c := by
  cases target with
  | primitive kind =>
    refine ⟨kind, rfl, ?_⟩
    by_cases same : source = kind
    · rw [same, conversion_self] at found
      rw [same, ← found, Primitive.conversion, if_pos rfl]
    · rw [conversion, if_neg (by simpa using same)] at found
      exact found
  | void | null | object _ => simp [conversion] at found

/-- Methods with different parameters cost differently for the given arguments. -/
def PricesApart (h : Hierarchy) (args : List StaticType) : Prop :=
  ∀ (m n : Method) (a b : Applicable), h.applicable? args m = some a →
    h.applicable? args n = some b → a.cost = b.cost → m.params = n.params

theorem pricesApart_nil (h : Hierarchy) : h.PricesApart [] := by
  have none_expected {m : Method} {a : Applicable} (accepted : h.applicable? [] m = some a) :
      m.params = [] := by
    obtain ⟨conversions, converted, -⟩ := Option.map_eq_some_iff.mp accepted
    exact List.forall₂_nil_left_iff.mp (forall₂_of_convertAll converted)
  intro m n a b first second _
  rw [none_expected first, none_expected second]

theorem pricesApart_primitive (h : Hierarchy) (source : Primitive) :
    h.PricesApart [.primitive source] := by
  -- A method that accepts the argument has one parameter, and costs what the argument's conversion
  -- costs.
  have one_expected {m : Method} {a : Applicable}
      (accepted : h.applicable? [.primitive source] m = some a) :
      ∃ kind c, m.params = [.primitive kind] ∧ source.conversion kind = some c ∧
      a.cost = c.cost := by
    obtain ⟨conversions, converted, rfl⟩ := Option.map_eq_some_iff.mp accepted
    obtain ⟨target, rest, -, others, params_eq⟩ :=
      List.forall₂_cons_left_iff.mp (forall₂_of_convertAll converted)
    rw [List.forall₂_nil_left_iff.mp others] at params_eq
    rw [params_eq, convertAll] at converted
    split at converted
    · rename_i c cs found last
      cases last
      cases converted
      obtain ⟨kind, rfl, converts⟩ := exists_of_conversion_primitive found
      exact ⟨kind, c, params_eq, converts, rfl⟩
    · cases converted
  intro m n a b first second same
  obtain ⟨kind, c, params_eq, converts, cost_eq⟩ := one_expected first
  obtain ⟨kind', d, params_eq', converts', cost_eq'⟩ := one_expected second
  rw [cost_eq, cost_eq'] at same
  rw [params_eq, params_eq', Primitive.eq_of_cost_conversion converts converts' same]

/-- Candidates with different parameters cost differently if prices are apart. -/
theorem PricesApart.nodup_cost (apart : h.PricesApart args)
    (distinct : (candidates.map (·.params)).Nodup) :
    ((candidates.filterMap (h.applicable? args)).map Applicable.cost).Nodup := by
  refine List.pairwise_map.mpr (List.Pairwise.filterMap _ ?_ (List.pairwise_map.mp distinct))
  intro m n differ a first b second same
  exact differ (apart m n a b first second same)

/-- Of methods with different costs there is at most one of least cost. -/
theorem cheapest_cases {viable : List Applicable} (distinct : (viable.map Applicable.cost).Nodup) :
    Applicable.cheapest viable = [] ∨ ∃ winner, Applicable.cheapest viable = [winner] := by
  have sublist : (Applicable.cheapest viable).Sublist viable := List.filter_sublist
  have least {a b : Applicable} (a_mem : a ∈ Applicable.cheapest viable)
      (b_mem : b ∈ Applicable.cheapest viable) : a.cost ≤ b.cost := by
    have all_le := List.all_eq_true.mp (List.mem_filter.mp a_mem).2
    exact of_decide_eq_true (all_le b (sublist.subset b_mem))
  match found : Applicable.cheapest viable with
  | [] => exact Or.inl rfl
  | [winner] => exact Or.inr ⟨winner, rfl⟩
  | a :: b :: rest =>
    rw [found] at sublist least
    have differ : a.cost ≠ b.cost := by
      have costs := (List.nodup_cons.mp (distinct.sublist (sublist.map Applicable.cost))).1
      exact fun same => costs (by simp [same])
    have a_mem : a ∈ a :: b :: rest := List.mem_cons_self
    have b_mem : b ∈ a :: b :: rest := List.mem_cons_of_mem a List.mem_cons_self
    exact absurd (Nat.le_antisymm (least a_mem b_mem) (least b_mem a_mem)) differ

/-- Methods with different costs are never tied. -/
theorem select_ne_tied {viable : List Applicable} (distinct : (viable.map Applicable.cost).Nodup)
    (rivals : List Applicable) : h.select viable ≠ .tied rivals := by
  rcases cheapest_cases distinct with none | ⟨winner, only⟩
  · simp [select, none, Applicable.mostExact]
  · have exact_only : Applicable.mostExact [winner] = [winner] := by
      simp [Applicable.mostExact]
    have specific : h.mostSpecific [winner] = [winner] := rfl
    simp [select, only, exact_only, specific]

/-- If prices are apart, overload resolution among candidates with different parameters fails only
because no candidate accepts the arguments. -/
theorem PricesApart.isNotFound_of_resolve (apart : h.PricesApart args)
    (distinct : (candidates.map (·.params)).Nodup) {owner : StaticType} {name : String}
    {error : LookupError} (failed : h.resolve owner name candidates args = .error error) :
    error.isNotFound = true := by
  unfold resolve at failed
  split at failed
  · cases failed
  · cases failed
    rfl
  · rename_i rivals tied
    exact absurd tied (select_ne_tied (apart.nodup_cost distinct) rivals)

end Hierarchy

/-! ### Libraries -/

/-- No lookup with the given arguments is ambiguous. -/
def Library.Decides (lib : Library) (args : List StaticType) : Prop :=
  ∀ (owner : StaticType) (name : String) (error : LookupError),
    lib.resolveMethod owner name args = .error error → error.isNotFound = true

namespace Registry

theorem decides_of_pricesApart {r : Registry} {args : List StaticType}
    (apart : r.hierarchy.PricesApart args) : r.library.Decides args := by
  intro owner name error failed
  refine apart.isNotFound_of_resolve ?_ failed
  cases owner with
  | object c => exact nodup_params_hideRepeated _
  | void | null | primitive _ => exact List.nodup_nil

/-- A lookup without arguments is never ambiguous. -/
theorem decides_nil (r : Registry) : r.library.Decides [] :=
  decides_of_pricesApart r.hierarchy.pricesApart_nil

/-- A lookup with a primitive argument is never ambiguous. -/
theorem decides_primitive (r : Registry) (kind : Primitive) : r.library.Decides [.primitive kind] :=
  decides_of_pricesApart (r.hierarchy.pricesApart_primitive kind)

end Registry

end Componentry
