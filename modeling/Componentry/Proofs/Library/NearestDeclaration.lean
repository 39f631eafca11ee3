import Componentry.Proofs.Library.Exploration
import Componentry.Proofs.Library.Lookup
import Componentry.Proofs.Library.RegistrationOrder

/-!
# The nearest declaration

A class has the methods that it declares, and those of its supertypes. Where several of them declare
the same parameters under the same name, the nearest declaration counts and hides the others. This
holds for every shape of a hierarchy: some of the supertypes may not be registered, some may be
reached in several ways, and some on a cycle. The supertypes are explored nearest first, so of all
declarations of the same parameters the one that is met first is at the least distance.

## Main definitions

* `Registry.Declares` — a registered class declares a method
* `Registry.methodsOf` are the methods that the class of a given name declares

## Main results

* `Registry.mem_declaredMethods_iff` — the methods of a class and its supertypes
* `Registry.pairwise_declaredMethods` — nearer declarations come first
* `Registry.exists_of_mem_hideRepeated` — the method that is kept is the first with its parameters
* `Registry.visibleMethods_nearest` — the nearest declaration of every list of parameters is visible
-/

namespace Componentry.Registry

variable {r : Registry} {owner c : ClassName} {name : String} {m : Method} {ms : List Method}

/-- The class that the method belongs to is registered, and declares it under the given name. -/
def Declares (r : Registry) (name : String) (m : Method) : Prop :=
  ∃ e, r.get? m.owner = some e ∧ ∃ d ∈ e.methods, d.name = name ∧ e.method d = m

/-! ### Declared methods -/

/-- The methods with the given name that a class declares, if it is registered. -/
def methodsOf (r : Registry) (name : String) (c : ClassName) : List Method :=
  ((r.get? c).map (·.methodsNamed name)).getD []

theorem mem_methodsOf_iff : m ∈ r.methodsOf name c ↔ m.owner = c ∧ r.Declares name m := by
  unfold methodsOf
  cases found : r.get? c with
  | none =>
    refine ⟨fun listed => (List.not_mem_nil listed).elim, ?_⟩
    rintro ⟨rfl, e, registered, -⟩
    rw [found] at registered
    cases registered
  | some e =>
    rw [Option.map_some, Option.getD_some, ClassEntry.methodsNamed]
    simp only [List.mem_map, List.mem_filter, decide_eq_true_eq, and_assoc]
    constructor
    · rintro ⟨d, declared, named, rfl⟩
      have owned : (e.method d).owner = c := name_of_get? found
      exact ⟨owned, e, by rw [owned, found], d, declared, named, rfl⟩
    · rintro ⟨rfl, e', registered, declared⟩
      rw [found] at registered
      cases registered
      exact declared

/-- The methods of a class and its supertypes are collected class by class. -/
theorem declaredMethods_eq (r : Registry) (owner : ClassName) (name : String) :
    r.declaredMethods owner name = (r.hierarchy.ancestors owner).flatMap (r.methodsOf name) := by
  unfold declaredMethods
  congr
  funext c
  cases found : r.get? c <;> simp [methodsOf, found]

/-- The methods that are collected are those of the class and its supertypes. -/
theorem mem_declaredMethods_iff : m ∈ r.declaredMethods owner name ↔
    r.Declares name m ∧ r.hierarchy.isSubtype owner m.owner = true := by
  simp only [declaredMethods_eq, List.mem_flatMap, mem_methodsOf_iff, Hierarchy.mem_ancestors_iff,
    Hierarchy.isSubtype, Option.isSome_iff_exists]
  constructor
  · rintro ⟨c, above, rfl, declared⟩
    exact ⟨declared, above⟩
  · rintro ⟨declared, above⟩
    exact ⟨m.owner, above, rfl, declared⟩

/-- No method is collected before one that is declared nearer to the class. -/
theorem pairwise_declaredMethods (r : Registry) (owner : ClassName) (name : String) :
    (r.declaredMethods owner name).Pairwise fun m o =>
      ∀ k n, r.hierarchy.IsAt owner k m.owner → r.hierarchy.IsAt owner n o.owner → k ≤ n := by
  rw [declaredMethods_eq, List.pairwise_flatMap]
  constructor
  · -- The methods of one class are all at its distance.
    intro c _
    refine List.pairwise_of_forall_mem_list fun m listed o listed' k n near far => ?_
    rw [(mem_methodsOf_iff.mp listed).1] at near
    rw [(mem_methodsOf_iff.mp listed').1] at far
    exact Nat.le_of_eq (near.unique far)
  · refine (r.hierarchy.pairwise_ancestors owner).imp ?_
    rintro c d ⟨-, ordered⟩ m listed o listed' k n near far
    rw [(mem_methodsOf_iff.mp listed).1] at near
    rw [(mem_methodsOf_iff.mp listed').1] at far
    exact ordered k n near far

/-! ### Hidden methods -/

/-- For every list of parameters a method is kept. -/
theorem mem_params_hideRepeated {params : List StaticType} :
    params ∈ (hideRepeated ms).map (·.params) ↔ params ∈ ms.map (·.params) := by
  induction ms with
  | nil => rfl
  | cons first rest ih =>
    rw [hideRepeated, List.map_cons, List.map_cons, List.mem_cons, List.mem_cons, ← ih]
    refine or_congr_right' fun other => ?_
    simp only [List.mem_map, List.mem_filter, decide_eq_true_eq]
    constructor
    · rintro ⟨m, ⟨kept, -⟩, same⟩
      exact ⟨m, kept, same⟩
    · rintro ⟨m, kept, rfl⟩
      exact ⟨m, ⟨kept, other⟩, rfl⟩

/-- The method that is kept is the first one with its parameters. -/
theorem exists_of_mem_hideRepeated (kept : m ∈ hideRepeated ms) :
    ∃ before after, ms = before ++ m :: after ∧ ∀ o ∈ before, o.params ≠ m.params := by
  induction ms with
  | nil => cases kept
  | cons first rest ih =>
    rcases List.mem_cons.mp kept with rfl | later
    · exact ⟨[], rest, rfl, List.forall_mem_nil _⟩
    · obtain ⟨kept, differ⟩ := List.mem_filter.mp later
      obtain ⟨before, after, rfl, earlier⟩ := ih kept
      have other : first.params ≠ m.params := (of_decide_eq_true differ).symm
      exact ⟨first :: before, after, rfl, List.forall_mem_cons.mpr ⟨other, earlier⟩⟩

/-- Whatever relates earlier methods of a list to later ones relates the method that is kept to all
others with its parameters. -/
theorem rel_of_mem_hideRepeated {R : Method → Method → Prop} (ordered : ms.Pairwise R)
    (kept : m ∈ hideRepeated ms) {o : Method} (listed : o ∈ ms) (same : o.params = m.params) :
    o = m ∨ R m o := by
  obtain ⟨before, after, rfl, earlier⟩ := exists_of_mem_hideRepeated kept
  rcases List.mem_append.mp listed with ahead | here
  · -- Had it come earlier, it would have been kept instead.
    exact absurd same (earlier o ahead)
  · rcases List.mem_cons.mp here with rfl | behind
    · exact Or.inl rfl
    · have tail := (List.pairwise_append.mp ordered).2.1
      exact Or.inr ((List.pairwise_cons.mp tail).1 o behind)

/-- The parameters of the visible methods are those that the class or a supertype declares. -/
theorem mem_params_visibleMethods {params : List StaticType} :
    params ∈ (r.visibleMethods owner name).map (·.params) ↔
      ∃ m, r.Declares name m ∧ m.params = params ∧ r.hierarchy.isSubtype owner m.owner = true := by
  rw [visibleMethods, mem_params_hideRepeated, List.mem_map]
  simp only [mem_declaredMethods_iff]
  constructor
  · rintro ⟨m, ⟨declared, above⟩, same⟩
    exact ⟨m, declared, same, above⟩
  · rintro ⟨m, declared, same, above⟩
    exact ⟨m, ⟨declared, above⟩, same⟩

/-- **The nearest declaration wins.** No two visible methods of a class have the same parameters.
The parameters of the visible methods are those that the class or one of its supertypes declares, as
far as it is registered. Every visible method is declared by its class, and no class that declares
the same parameters is nearer. -/
theorem visibleMethods_nearest (r : Registry) (owner : ClassName) (name : String) :
    ((r.visibleMethods owner name).map (·.params)).Nodup ∧
    (∀ params, params ∈ (r.visibleMethods owner name).map (·.params) ↔
      ∃ m, r.Declares name m ∧ m.params = params ∧ r.hierarchy.isSubtype owner m.owner = true) ∧
    (∀ m ∈ r.visibleMethods owner name, r.Declares name m ∧
      ∃ n, r.hierarchy.distance owner m.owner = some n ∧
        ∀ o k, r.Declares name o → o.params = m.params →
          r.hierarchy.distance owner o.owner = some k → n ≤ k) := by
  refine ⟨nodup_params_hideRepeated _, fun params => mem_params_visibleMethods, fun m visible => ?_⟩
  obtain ⟨declared, above⟩ := mem_declaredMethods_iff.mp (mem_of_mem_hideRepeated visible)
  obtain ⟨n, near⟩ := Option.isSome_iff_exists.mp above
  refine ⟨declared, n, near, fun o k declared' same far => ?_⟩
  have listed : o ∈ r.declaredMethods owner name :=
    mem_declaredMethods_iff.mpr ⟨declared', Option.isSome_iff_exists.mpr ⟨k, far⟩⟩
  rcases rel_of_mem_hideRepeated (r.pairwise_declaredMethods owner name) visible listed same with
    rfl | ordered
  · rw [near] at far
    exact Nat.le_of_eq (Option.some.inj far)
  · exact ordered n k (Hierarchy.distance_eq_some_iff.mp near)
      (Hierarchy.distance_eq_some_iff.mp far)

end Componentry.Registry

namespace Componentry.Sample

/-- A knob is a control and has a range. What has a range is a widget and declares how its value is
set to a whole number; a widget declares this, too, also for other numbers. A widget names the knob
as its superclass, and the control is not registered. -/
def knobs : Registry :=
  ((Registry.blank (.ofClass "String")).registerEach
    [{ name := .topLevel "Knob", superclass := some (.topLevel "Control"),
        interfaces := [.topLevel "Ranged"] },
      { name := .topLevel "Widget", superclass := some (.topLevel "Knob"),
        methods := [⟨"setValue", [.primitive .int], .primitive .int⟩,
          ⟨"setValue", [.primitive .double], .void⟩] },
      { name := .topLevel "Ranged", interfaces := [.topLevel "Widget"],
        methods := [⟨"setValue", [.primitive .int], .void⟩] }]).1

/-- The value of a knob is set to a whole number by what has a range, which is one step away. That
of the widget is hidden for whole numbers and visible for others, although there is a cycle. -/
theorem knobs_nearest :
    let ranged : Method := ⟨.topLevel "Ranged", "setValue", [.primitive .int], .void⟩
    let widget : Method := ⟨.topLevel "Widget", "setValue", [.primitive .double], .void⟩
    knobs.visibleMethods (.topLevel "Knob") "setValue" = [ranged, widget] ∧
    knobs.hierarchy.isSubtype (.topLevel "Widget") (.topLevel "Knob") = true ∧
    knobs.Declares "setValue" ranged ∧
    ∃ n, knobs.hierarchy.distance (.topLevel "Knob") (.topLevel "Ranged") = some n ∧
      ∀ o k, knobs.Declares "setValue" o → o.params = [.primitive .int] →
        knobs.hierarchy.distance (.topLevel "Knob") o.owner = some k → n ≤ k := by
  intro ranged widget
  have visible : knobs.visibleMethods (.topLevel "Knob") "setValue" = [ranged, widget] := by
    decide +kernel
  obtain ⟨-, -, nearest⟩ := Registry.visibleMethods_nearest knobs (.topLevel "Knob") "setValue"
  exact ⟨visible, by decide +kernel, nearest ranged (by rw [visible]; exact List.mem_cons_self)⟩

end Componentry.Sample
