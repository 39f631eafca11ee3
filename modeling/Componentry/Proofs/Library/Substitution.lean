import Componentry.Proofs.Library.ConversionOrder
import Componentry.Proofs.Library.NearestDeclaration
import Mathlib.Data.List.MinMax

/-!
# What a subtype accepts

A lookup says that there is no method exactly if none of the class and its supertypes declares one
that accepts the arguments. A subtype has at least the lists of parameters that its supertypes have:
a declaration may be hidden, but then by another one with the same parameters. And arguments that
convert to other arguments convert to whatever those convert to. So what a type accepts is accepted
by its subtypes, for all arguments that convert to the given ones. Another overload of the subtype
may make the call ambiguous, but never makes the method disappear.

## Main definitions

* `Library.Lacks` — a lookup fails because no method accepts the arguments

## Main results

* `Hierarchy.select_eq_none_iff` — a selection is empty only if there is nothing to select from
* `Hierarchy.isNotFound_resolve_iff` — no candidate is found exactly if none accepts the arguments
* `Registry.lacks_iff` — what a registered class lacks
* `Registry.accepts_of_subtype` — a subtype accepts what its supertypes accept
-/

namespace Componentry

/-! ### Empty selections -/

namespace Applicable

variable {ms : List Applicable}

/-- Among methods there is one of the least rank, whatever they are ranked by. -/
theorem exists_least {α : Type} [LinearOrder α] (rank : Applicable → α) (some_viable : ms ≠ []) :
    ∃ m ∈ ms, ∀ o ∈ ms, rank m ≤ rank o := by
  cases found : ms.argmin rank with
  | none => exact absurd (List.argmin_eq_none.mp found) some_viable
  | some m => exact ⟨m, List.argmin_mem found, fun o listed => List.le_of_mem_argmin listed found⟩

theorem cheapest_ne_nil (some_viable : ms ≠ []) : cheapest ms ≠ [] := by
  obtain ⟨m, member, least⟩ := exists_least cost some_viable
  exact List.ne_nil_of_mem (List.mem_filter.mpr ⟨member, by simpa using least⟩)

theorem mostExact_ne_nil (some_viable : ms ≠ []) : mostExact ms ≠ [] := by
  obtain ⟨m, member, most⟩ := exists_least (fun m => OrderDual.toDual m.exactness) some_viable
  exact List.ne_nil_of_mem (List.mem_filter.mpr ⟨member, by simpa using most⟩)

end Applicable

namespace Hierarchy

variable {h : Hierarchy} {args args' : List StaticType} {candidates : List Method} {m : Method}

/-- A selection is empty only if there is nothing to select from. -/
theorem select_eq_none_iff {viable : List Applicable} : h.select viable = .none ↔ viable = [] := by
  constructor
  · intro empty
    by_contra some_viable
    have rivals := Applicable.mostExact_ne_nil (Applicable.cheapest_ne_nil some_viable)
    simp only [select] at empty
    split at empty
    · rename_i none_left
      exact rivals none_left
    · cases empty
    · cases empty
  · rintro rfl
    rfl

/-- No candidate is found exactly if none of them accepts the arguments. -/
theorem isNotFound_resolve_iff {owner : StaticType} {name : String} :
    (∃ error, h.resolve owner name candidates args = .error error ∧ error.isNotFound = true) ↔
      ∀ m ∈ candidates, ¬ h.Accepts args m := by
  have none_viable : candidates.filterMap (h.applicable? args) = [] ↔
      ∀ m ∈ candidates, ¬ h.Accepts args m := by
    simp only [List.filterMap_eq_nil_iff, accepts_iff,
      Option.eq_none_iff_forall_ne_some, not_exists]
  rw [← none_viable, ← select_eq_none_iff (h := h), resolve]
  constructor
  · rintro ⟨error, failed, missing⟩
    split at failed
    · cases failed
    · assumption
    · cases failed
      cases missing
  · intro empty
    rw [empty]
    exact ⟨_, rfl, rfl⟩

theorem isSubtype_trans {a b c : ClassName} (first : h.isSubtype a b = true)
    (second : h.isSubtype b c = true) : h.isSubtype a c = true :=
  isSubtype_iff.mpr ((isSubtype_iff.mp first).trans (isSubtype_iff.mp second))

/-- A method that accepts arguments accepts whatever converts to them. -/
theorem Accepts.of_converts (accepted : h.Accepts args m)
    (converted : List.Forall₂ (fun arg' arg => h.converts arg' arg = true) args' args) :
    h.Accepts args' m := by
  unfold Accepts at accepted ⊢
  generalize m.params = params at accepted ⊢
  induction converted generalizing params with
  | nil => exact accepted
  | cons first _ ih =>
    obtain ⟨param, rest, second, others, rfl⟩ := List.forall₂_cons_left_iff.mp accepted
    exact .cons (converts_trans first second) (ih rest others)

end Hierarchy

/-! ### Lookups that find nothing -/

/-- The lookup fails, and not because of an ambiguity: no method of the type with the given name
accepts the arguments. -/
def Library.Lacks (lib : Library) (owner : StaticType) (name : String)
    (args : List StaticType) : Prop :=
  ∃ error, lib.resolveMethod owner name args = .error error ∧ error.isNotFound = true

namespace Registry

/-- A class lacks a method exactly if no registered class above it declares one that accepts the
arguments. -/
theorem lacks_iff {r : Registry} {c : ClassName} {name : String} {args : List StaticType} :
    r.library.Lacks (.object c) name args ↔
      ∀ m, r.Declares name m → r.hierarchy.isSubtype c m.owner = true →
        ¬ r.hierarchy.Accepts args m := by
  have lookup : r.library.Lacks (.object c) name args ↔
      ∀ m ∈ r.visibleMethods c name, ¬ r.hierarchy.Accepts args m :=
        Hierarchy.isNotFound_resolve_iff
  rw [lookup]
  constructor
  · intro none_visible m declared above accepted
    -- The declaration may be hidden, but then another one with the same parameters is visible.
    have listed : m.params ∈ (r.visibleMethods c name).map (·.params) :=
      mem_params_visibleMethods.mpr ⟨m, declared, rfl, above⟩
    obtain ⟨o, visible, same⟩ := List.mem_map.mp listed
    refine none_visible o visible ?_
    rw [Hierarchy.Accepts, same]
    exact accepted
  · intro none_declared m visible accepted
    obtain ⟨declared, above⟩ := mem_declaredMethods_iff.mp (mem_of_mem_hideRepeated visible)
    exact none_declared m declared above accepted

/-- **A subtype accepts what its supertypes accept.** A method of a class is looked up with some
arguments, and there is one that accepts them. Then there is one for every subtype of the class and
all arguments that convert to the given ones, too: it is found, or the lookup is ambiguous, but the
method is not missing. -/
theorem accepts_of_subtype (r : Registry) (name : String) (sup sub : ClassName)
    (args args' : List StaticType) (below : r.hierarchy.isSubtype sub sup = true)
    (converted : List.Forall₂ (fun arg' arg => r.hierarchy.converts arg' arg = true) args' args)
    (accepted : ¬ r.library.Lacks (.object sup) name args) :
    ¬ r.library.Lacks (.object sub) name args' := by
  rw [lacks_iff] at accepted ⊢
  intro none_below
  refine accepted fun m declared above accepts => ?_
  exact none_below m declared (Hierarchy.isSubtype_trans below above)
    (accepts.of_converts converted)

end Registry

namespace Sample

/-- A holder takes shapes. A shelf is a holder and takes what is tinted as well, and a disc is
both. -/
def shelves : Registry :=
  ((Registry.blank (.ofClass "String")).registerEach
    [{ name := .topLevel "Holder", methods := [⟨"put", [.ofClass "Shape"], .void⟩] },
      { name := .topLevel "Shelf", superclass := some (.topLevel "Holder"),
        methods := [⟨"put", [.ofClass "Tinted"], .void⟩] },
      { name := .topLevel "Disc", interfaces := [.topLevel "Shape", .topLevel "Tinted"] }]).1

/-- A holder takes a shape, so a shelf does not lack a method for a disc. There are even two,
neither of which is better than the other. -/
theorem shelf_disc :
    shelves.hierarchy.isSubtype (.topLevel "Shelf") (.topLevel "Holder") = true ∧
    shelves.hierarchy.converts (.ofClass "Disc") (.ofClass "Shape") = true ∧
    shelves.library.resolveMethod (.ofClass "Holder") "put" [.ofClass "Shape"] =
      .ok ⟨.topLevel "Holder", "put", [.ofClass "Shape"], .void⟩ ∧
    ¬ shelves.library.Lacks (.ofClass "Shelf") "put" [.ofClass "Disc"] ∧
    shelves.library.resolveMethod (.ofClass "Shelf") "put" [.ofClass "Disc"] =
      .error (.ambiguous "Shelf" "put" "put(Tinted) and put(Shape)") := by
  have below : shelves.hierarchy.isSubtype (.topLevel "Shelf") (.topLevel "Holder") = true := by
    decide +kernel
  have converts : shelves.hierarchy.converts (.ofClass "Disc") (.ofClass "Shape") = true := by
    decide +kernel
  have found : shelves.library.resolveMethod (.ofClass "Holder") "put" [.ofClass "Shape"] =
      .ok ⟨.topLevel "Holder", "put", [.ofClass "Shape"], .void⟩ := by decide +kernel
  have accepted : ¬ shelves.library.Lacks (.ofClass "Holder") "put" [.ofClass "Shape"] := by
    rintro ⟨error, failed, -⟩
    rw [found] at failed
    cases failed
  exact ⟨below, converts, found,
    Registry.accepts_of_subtype shelves "put" _ _ _ _ below (.cons converts .nil) accepted, by
      decide +kernel⟩

end Sample

end Componentry
