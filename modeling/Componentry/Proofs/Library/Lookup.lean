import Componentry.Library.Registry
import Mathlib.Data.List.Forall2
import Mathlib.Data.List.Nodup

/-!
# What lookups find

A method that is found belongs to the class that was asked or to a supertype of it, and it accepts
the arguments that it was looked up with. Looked up with its own parameters it is found again: no
conversion other than the identity is free, and no two methods that are visible have the same
parameters. A constructor that is found creates objects of the class that was asked, without
arguments.

## Main results

* `Hierarchy.of_resolve` — overload resolution selects a candidate that accepts the arguments
* `Hierarchy.resolve_params` — overload resolution selects the candidate that matches exactly
* `Registry.of_resolveMethod`, `Registry.of_defaultConstructor` — what the lookups of a registry
  find
* `Registry.resolveMethod_params` — a method that is found is found with its own parameters
-/

namespace Componentry

/-- An element that is picked from a list is one of its elements. -/
theorem mem_of_mem_picks {α : Type} {xs : List α} {x : α} {others : List α}
    (h : (x, others) ∈ picks xs) : x ∈ xs := by
  induction xs generalizing others with
  | nil => cases h
  | cons y ys ih =>
    rw [picks, List.mem_cons, List.mem_map] at h
    rcases h with first | ⟨⟨z, rest⟩, inside, same⟩
    · cases first
      exact List.mem_cons_self
    · cases same
      exact List.mem_cons_of_mem y (ih inside)

/-- Kinds are the same if nothing is converted. -/
theorem Primitive.eq_of_conversion_identity {source target : Primitive}
    (found : source.conversion target = some .identity) : source = target := by
  revert found
  cases source <;> cases target <;> decide

namespace Hierarchy

variable {h : Hierarchy} {args params : List StaticType}

/-- Arguments that convert to parameters do so one by one. -/
theorem forall₂_of_convertAll {conversions : List Conversion}
    (found : h.convertAll args params = some conversions) :
    List.Forall₂ (fun arg param => h.converts arg param = true) args params := by
  induction args generalizing params conversions with
  | nil =>
    cases params with
    | nil => exact .nil
    | cons _ _ => cases found
  | cons arg args ih =>
    cases params with
    | nil => cases found
    | cons param params =>
      rw [convertAll] at found
      split at found
      · rename_i first others
        exact .cons (by simp [converts, first]) (ih others)
      · cases found

/-- The method that is selected has the most exact matches among the cheapest ones. -/
theorem mem_rivals_of_select {viable : List Applicable} {winner : Applicable}
    (selected : h.select viable = .best winner) :
    winner ∈ Applicable.mostExact (Applicable.cheapest viable) := by
  simp only [select] at selected
  split at selected
  · cases selected
  · rename_i only _
    cases selected
    have specific :
        winner ∈ h.mostSpecific (Applicable.mostExact (Applicable.cheapest viable)) := by
      rw [only]
      exact List.mem_singleton_self winner
    rw [mostSpecific, List.mem_map] at specific
    obtain ⟨⟨m, others⟩, picked, rfl⟩ := specific
    exact mem_of_mem_picks (List.mem_filter.mp picked).1
  · cases selected

/-- The method that is selected is one of those that can be selected. -/
theorem mem_of_select {viable : List Applicable} {winner : Applicable}
    (selected : h.select viable = .best winner) : winner ∈ viable :=
  (List.mem_filter.mp (List.mem_filter.mp (mem_rivals_of_select selected)).1).1

/-- Overload resolution selects a candidate that accepts the arguments. -/
theorem of_resolve {owner : StaticType} {name : String} {candidates : List Method} {m : Method}
    (found : h.resolve owner name candidates args = .ok m) :
    m ∈ candidates ∧ List.Forall₂ (fun arg param => h.converts arg param = true) args m.params := by
  unfold resolve at found
  split at found
  · rename_i winner selected
    cases found
    obtain ⟨candidate, member, accepted⟩ := List.mem_filterMap.mp (mem_of_select selected)
    obtain ⟨conversions, converted, rfl⟩ := Option.map_eq_some_iff.mp accepted
    exact ⟨member, forall₂_of_convertAll converted⟩
  · cases found
  · cases found

/-! ### Exact matches -/

theorem conversion_self (h : Hierarchy) (type : StaticType) :
    h.conversion type type = some .identity :=
  if_pos rfl

/-- A conversion that costs nothing changes nothing. -/
theorem eq_of_cost_conversion {source target : StaticType} {c : Conversion}
    (found : h.conversion source target = some c) (free : c.cost = 0) : source = target := by
  obtain rfl : c = .identity := by
    cases c <;> simp [Conversion.cost] at free ⊢
  unfold conversion at found
  split at found
  · assumption
  · split at found
    · rw [Primitive.eq_of_conversion_identity found]
    · cases found
    · simp at found
    · cases found

/-- Arguments convert to parameters of the same types at no cost. -/
theorem convertAll_self (h : Hierarchy) (types : List StaticType) :
    h.convertAll types types = some (types.map fun _ => .identity) := by
  induction types with
  | nil => rfl
  | cons type rest ih => rw [convertAll, conversion_self, ih, List.map_cons]

/-- Arguments that convert at no cost are of the types of the parameters. -/
theorem eq_of_cost_convertAll {m : Method} {conversions : List Conversion}
    (found : h.convertAll args params = some conversions)
    (free : (Applicable.mk m conversions).cost = 0) : params = args := by
  induction args generalizing params conversions with
  | nil =>
    cases params with
    | nil => rfl
    | cons _ _ => cases found
  | cons arg args ih =>
    cases params with
    | nil => cases found
    | cons param params =>
      rw [convertAll] at found
      split at found
      · rename_i c cs first others
        cases found
        obtain ⟨here, later⟩ := Nat.add_eq_zero_iff.mp free
        rw [eq_of_cost_conversion first here, ih others later]
      · cases found

/-- A method with its own parameters as arguments. -/
def exactMatch (m : Method) : Applicable := ⟨m, m.params.map fun _ => .identity⟩

theorem cost_exactMatch (m : Method) : (exactMatch m).cost = 0 := by
  simp only [Applicable.cost, exactMatch]
  induction m.params with
  | nil => rfl
  | cons _ _ ih => rw [List.map_cons, List.foldr_cons, ih, Conversion.cost]

/-- An applicable method that costs nothing is an exact match. -/
theorem eq_exactMatch {m : Method} {a : Applicable} (accepted : h.applicable? args m = some a)
    (free : a.cost = 0) : m.params = args ∧ a = exactMatch m := by
  obtain ⟨conversions, converted, rfl⟩ := Option.map_eq_some_iff.mp accepted
  obtain rfl := eq_of_cost_convertAll converted free
  rw [convertAll_self] at converted
  cases converted
  exact ⟨rfl, rfl⟩

/-- A method that matches exactly is the only one of least cost. -/
theorem cheapest_eq_exactMatch {candidates : List Method} {m : Method} (member : m ∈ candidates)
    (distinct : (candidates.map (·.params)).Nodup) :
    Applicable.cheapest (candidates.filterMap (h.applicable? m.params)) = [exactMatch m] := by
  have accepted : h.applicable? m.params m = some (exactMatch m) := by
    rw [applicable?, convertAll_self]
    rfl
  have viable : exactMatch m ∈ candidates.filterMap (h.applicable? m.params) :=
    List.mem_filterMap.mpr ⟨m, member, accepted⟩
  -- No two of the applicable methods have the same parameters, so none is listed twice.
  have nodup : (candidates.filterMap (h.applicable? m.params)).Nodup := by
    refine List.Pairwise.filterMap _ ?_ (List.pairwise_map.mp distinct)
    rintro a b differ x first y second rfl
    obtain ⟨_, -, rfl⟩ := Option.map_eq_some_iff.mp first
    obtain ⟨_, -, same⟩ := Option.map_eq_some_iff.mp second
    cases same
    exact differ rfl
  refine List.perm_singleton.mp
    ((List.perm_ext_iff_of_nodup (nodup.filter _) (List.nodup_singleton _)).mpr ?_)
  intro a
  rw [List.mem_filter, List.all_eq_true, List.mem_singleton]
  constructor
  · rintro ⟨found, least⟩
    have free : a.cost = 0 := by simpa [cost_exactMatch] using least _ viable
    obtain ⟨candidate, listed, applied⟩ := List.mem_filterMap.mp found
    obtain ⟨same, rfl⟩ := eq_exactMatch applied free
    rw [List.inj_on_of_nodup_map distinct listed member same]
  · rintro rfl
    refine ⟨viable, fun b _ => ?_⟩
    simp [cost_exactMatch]

/-- Of candidates with different parameters, the one that matches exactly is selected. -/
theorem resolve_params {candidates : List Method} {m : Method} (member : m ∈ candidates)
    (distinct : (candidates.map (·.params)).Nodup) (owner : StaticType) (name : String) :
    h.resolve owner name candidates m.params = .ok m := by
  have exact_only : Applicable.mostExact [exactMatch m] = [exactMatch m] := by
    simp [Applicable.mostExact]
  have specific : h.mostSpecific [exactMatch m] = [exactMatch m] := rfl
  simp only [resolve, select, cheapest_eq_exactMatch member distinct, exact_only, specific]
  rfl

/-- A class is a subtype of its ancestors. -/
theorem isSubtype_of_mem_ancestors {sub sup : ClassName} (above : sup ∈ h.ancestors sub) :
    h.isSubtype sub sup = true := by
  obtain ⟨layer, member, inside⟩ := List.mem_flatten.mp above
  rw [isSubtype, distance, List.findIdx?_isSome, List.any_eq_true]
  exact ⟨layer, member, decide_eq_true inside⟩

end Hierarchy

namespace Registry

variable {r : Registry}

theorem mem_of_mem_hideRepeated {m : Method} {ms : List Method} (h : m ∈ hideRepeated ms) :
    m ∈ ms := by
  induction ms with
  | nil => cases h
  | cons first rest ih =>
    rw [hideRepeated, List.mem_cons] at h
    rcases h with rfl | later
    · exact List.mem_cons_self
    · exact List.mem_cons_of_mem first (ih (List.mem_filter.mp later).1)

/-- Methods that are not hidden have different parameters. -/
theorem nodup_params_hideRepeated (ms : List Method) :
    ((hideRepeated ms).map (·.params)).Nodup := by
  induction ms with
  | nil => exact .nil
  | cons first rest ih =>
    refine List.nodup_cons.mpr ⟨fun again => ?_, ih.sublist (List.filter_sublist.map _)⟩
    obtain ⟨m, kept, same⟩ := List.mem_map.mp again
    exact of_decide_eq_true (List.mem_filter.mp kept).2 same

theorem name_of_get? {name : ClassName} {e : ClassEntry} (found : r.get? name = some e) :
    e.name = name := by
  simpa using List.find?_some found

/-- A visible method is declared by the class or by a supertype of it. -/
theorem isSubtype_of_mem_visibleMethods {owner : ClassName} {name : String} {m : Method}
    (h : m ∈ r.visibleMethods owner name) : r.hierarchy.isSubtype owner m.owner = true := by
  obtain ⟨c, above, declared⟩ := List.mem_flatMap.mp (mem_of_mem_hideRepeated h)
  split at declared
  · rename_i e found
    obtain ⟨entry, -, rfl⟩ := List.mem_map.mp declared
    refine Hierarchy.isSubtype_of_mem_ancestors ?_
    rw [ClassEntry.method, name_of_get? found]
    exact above
  · cases declared

/-- A method that is found is a method of a class, declared there or further up, and accepts the
arguments. -/
theorem of_resolveMethod {owner : StaticType} {name : String} {args : List StaticType} {m : Method}
    (found : r.library.resolveMethod owner name args = .ok m) :
    ∃ c, owner = .object c ∧ r.hierarchy.isSubtype c m.owner = true ∧
      List.Forall₂ (fun arg param => r.hierarchy.converts arg param = true) args m.params := by
  obtain ⟨candidate, accepted⟩ := Hierarchy.of_resolve found
  cases owner with
  | object c => exact ⟨c, rfl, isSubtype_of_mem_visibleMethods candidate, accepted⟩
  | void | null | primitive _ => cases candidate

/-- A method that is found is found again with its own parameters. -/
theorem resolveMethod_params {owner : StaticType} {name : String} {args : List StaticType}
    {m : Method} (found : r.library.resolveMethod owner name args = .ok m) :
    r.library.resolveMethod owner name m.params = .ok m := by
  obtain ⟨candidate, -⟩ := Hierarchy.of_resolve found
  cases owner with
  | object c => exact Hierarchy.resolve_params candidate (nodup_params_hideRepeated _) _ _
  | void | null | primitive _ => cases candidate

/-- A default constructor creates objects of the class it was asked for, without arguments. -/
theorem of_defaultConstructor {type : StaticType} {k : Constructor}
    (found : r.library.defaultConstructor type = some k) :
    type = .object k.owner ∧ k.params = [] := by
  simp only [library, defaultConstructor] at found
  split at found
  · rename_i e registered
    split at found
    · cases found
      obtain ⟨name, isClass, entry⟩ := Option.bind_eq_some_iff.mp registered
      cases type with
      | object c =>
        cases isClass
        exact ⟨congrArg _ (name_of_get? entry).symm, rfl⟩
      | void | null | primitive _ => cases isClass
    · cases found
  · cases found

end Registry

end Componentry
