import Componentry.Proofs.Library.Specificity

/-!
# The order of conversions

Conversions can be composed: what converts to a type converts to everything that type converts to.
Doing it at once is never more expensive than doing it in two steps, since the base costs of the
kinds of conversions outweigh what is lost in the number of steps, and since no class is farther
away than the way by a class in between. Nothing but the identity is free. So types with the costs
of their conversions form a space in which the triangle inequality holds, although there need not be
a way back: between different primitive kinds there never is.

## Main results

* `Primitive.conversion_trans`, `Hierarchy.conversion_trans` — the triangle inequality of
  conversions
* `Hierarchy.converts_trans` — conversions can be composed
* `Hierarchy.conversion_preorder` — conversions are a preorder with costs
-/

namespace Componentry

/-- Widening in two steps is widening, and costs no less. -/
theorem Primitive.conversion_trans {source mid target : Primitive} {c d : Conversion}
    (first : source.conversion mid = some c) (second : mid.conversion target = some d) :
    ∃ e, source.conversion target = some e ∧ e.cost ≤ c.cost + d.cost := by
  have table : ∀ source ∈ all, ∀ mid ∈ all, ∀ target ∈ all, ∀ c ∈ source.conversion mid,
      ∀ d ∈ mid.conversion target, ∃ e ∈ source.conversion target, e.cost ≤ c.cost + d.cost := by
    decide
  exact table source source.mem_all mid mid.mem_all target target.mem_all c first d second

namespace Hierarchy

variable {h : Hierarchy} {source mid target : StaticType} {c d : Conversion}

theorem conversion_primitive {source target : Primitive}
    (widens : source.conversion target = some c) :
    h.conversion (.primitive source) (.primitive target) = some c := by
  by_cases same : source = target
  · rw [same, Primitive.conversion, if_pos rfl] at widens
    rw [same, conversion_self, widens]
  · simp [conversion, same, widens]

theorem conversion_object {sub sup : ClassName} {n : Nat} (other : sub ≠ sup)
    (near : h.distance sub sup = some n) :
    h.conversion (.object sub) (.object sup) = some (.derivedToBase sup n) := by
  simp [conversion, other, near]

/-- Objects of a class convert to classes only. -/
theorem exists_of_conversion_object {sub : ClassName}
    (found : h.conversion (.object sub) target = some c) : ∃ sup, target = .object sup := by
  have reached : h.converts (.object sub) target = true := by
    rw [converts, found]
    rfl
  exact exists_of_converts_object reached

/-- Null converts to classes only. -/
theorem exists_of_conversion_null (found : h.conversion .null target = some c)
    (other : target ≠ .null) : ∃ sup, target = .object sup ∧ c = .nullToReference := by
  cases target with
  | object sup =>
    refine ⟨sup, rfl, ?_⟩
    simpa [conversion] using found.symm
  | null => exact absurd rfl other
  | void | primitive _ => simp [conversion] at found

/-- **The triangle inequality.** What converts in two steps converts at once, and that costs no
more. -/
theorem conversion_trans (first : h.conversion source mid = some c)
    (second : h.conversion mid target = some d) :
    ∃ e, h.conversion source target = some e ∧ e.cost ≤ c.cost + d.cost := by
  by_cases unchanged : source = mid
  · rw [unchanged]
    exact ⟨d, second, Nat.le_add_left _ _⟩
  by_cases kept : mid = target
  · rw [← kept]
    exact ⟨c, first, Nat.le_add_right _ _⟩
  by_cases back : source = target
  · -- On a cycle of the hierarchy the second step may lead back.
    rw [back]
    exact ⟨.identity, h.conversion_self target, Nat.zero_le _⟩
  cases source with
  | object sub =>
    obtain ⟨sup, rfl⟩ := exists_of_conversion_object first
    obtain ⟨top, rfl⟩ := exists_of_conversion_object second
    obtain ⟨m, near, cost_eq⟩ := distance_of_conversion (fun same => unchanged (by rw [same])) first
    obtain ⟨n, far, cost_eq'⟩ := distance_of_conversion (fun same => kept (by rw [same])) second
    obtain ⟨k, le, direct⟩ := distance_trans near far
    refine ⟨.derivedToBase top k, conversion_object (fun same => back (by rw [same])) direct, ?_⟩
    rw [cost_eq, cost_eq', Conversion.cost]
    omega
  | primitive kind =>
    obtain ⟨kind', rfl, widens⟩ := exists_of_conversion_primitive first
    obtain ⟨kind'', rfl, widens'⟩ := exists_of_conversion_primitive second
    obtain ⟨e, whole, le⟩ := Primitive.conversion_trans widens widens'
    exact ⟨e, conversion_primitive whole, le⟩
  | null =>
    obtain ⟨sup, rfl, rfl⟩ := exists_of_conversion_null first (Ne.symm unchanged)
    obtain ⟨top, rfl⟩ := exists_of_conversion_object second
    exact ⟨.nullToReference, rfl, Nat.le_add_right _ _⟩
  | void =>
    cases mid with
    | void => exact absurd rfl unchanged
    | null | primitive _ | object _ => simp [conversion] at first

/-- What converts to a type converts to everything that type converts to. -/
theorem converts_trans (first : h.converts source mid = true)
    (second : h.converts mid target = true) : h.converts source target = true := by
  obtain ⟨c, there⟩ := Option.isSome_iff_exists.mp first
  obtain ⟨d, onward⟩ := Option.isSome_iff_exists.mp second
  obtain ⟨e, whole, -⟩ := conversion_trans there onward
  rw [converts, whole]
  rfl

/-- **Conversions are a preorder with costs.** Every type converts to itself, which is free. What
converts to a type by way of another one converts to it at once, at a cost that is at most the sum
of the two. Only the identity is free, and no two different primitive kinds convert to each
other. -/
theorem conversion_preorder (h : Hierarchy) (source mid target : StaticType) :
    h.conversion source source = some .identity ∧ Conversion.identity.cost = 0 ∧
    (∀ c d, h.conversion source mid = some c → h.conversion mid target = some d →
      ∃ e, h.conversion source target = some e ∧ e.cost ≤ c.cost + d.cost) ∧
    (∀ c, h.conversion source target = some c → c.cost = 0 → source = target) ∧
    (∀ kind other : Primitive, kind ≠ other →
      ¬ (h.converts (.primitive kind) (.primitive other) = true ∧
      h.converts (.primitive other) (.primitive kind) = true)) := by
  refine ⟨h.conversion_self source, rfl, fun c d first second => conversion_trans first second,
    fun c found free => eq_of_cost_conversion found free, ?_⟩
  rintro kind other differ ⟨there, back⟩
  obtain ⟨_, same, widens⟩ := exists_of_converts_primitive there
  obtain ⟨_, same', widens'⟩ := exists_of_converts_primitive back
  cases same
  cases same'
  exact differ (Primitive.conversion_antisymm widens widens')

end Hierarchy

/-- A dial is a meter by way of a gauge, and every meter has a scale. The dial names the scale once
more, so it is cheaper to go there at once. -/
theorem Sample.dial_scaled :
    meters.conversion (.ofClass "Dial") (.ofClass "Meter") =
      some (.derivedToBase (.topLevel "Meter") 2) ∧
    meters.conversion (.ofClass "Meter") (.ofClass "Scaled") =
      some (.derivedToBase (.topLevel "Scaled") 1) ∧
    ∃ e, meters.conversion (.ofClass "Dial") (.ofClass "Scaled") = some e ∧ e.cost ≤ 22 + 21 := by
  obtain ⟨-, -, triangle, -⟩ :=
    Hierarchy.conversion_preorder meters (.ofClass "Dial") (.ofClass "Meter") (.ofClass "Scaled")
  have first : meters.conversion (.ofClass "Dial") (.ofClass "Meter") =
      some (.derivedToBase (.topLevel "Meter") 2) := by decide +kernel
  have second : meters.conversion (.ofClass "Meter") (.ofClass "Scaled") =
      some (.derivedToBase (.topLevel "Scaled") 1) := by decide +kernel
  exact ⟨first, second, triangle _ _ first second⟩

end Componentry
