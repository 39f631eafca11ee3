import Componentry.Proofs.Library.Distance
import Componentry.Proofs.Library.RegistrationOrder

/-!
# Cycles of supertypes

A class that names itself as a supertype is refused. Longer cycles are not: a supertype may be named
before it is registered, and when it is registered at last, it may name in turn a class from which
it can be reached. This is the only way in which a cycle comes about. So there is none as long as no
class is registered after one that names it, and then no two classes are subtypes of each other.

## Main definitions

* `Registry.Sound` — the registry is consistent, and no class in it names itself
* `Registry.RegisteredAfter` — a run of calls registers one class after another

## Main results

* `Registry.sound_registerEach` — registration keeps a registry sound
* `Hierarchy.antisymm_iff` — no two classes are subtypes of each other exactly if there is no cycle
* `Registry.registeredAfter_iff` — the classes are listed in the order of the calls, the newest
  first
* `Registry.Sound.exists_newer_of_cycle` — on every cycle a class names one that is newer
* `Registry.cycle_of_registerEach` — what is left of antisymmetry after any registrations
-/

namespace Componentry

/-! ### Cycles and subtypes -/

/-- If no class is its own direct supertype, then subtyping is antisymmetric exactly if no class can
be reached from itself. -/
theorem Hierarchy.antisymm_iff {h : Hierarchy} (irreflexive : ∀ c, ¬ h.IsDirect c c) :
    (∀ a b, h.isSubtype a b = true → h.isSubtype b a = true → a = b) ↔
      ∀ c, ¬ Relation.TransGen h.IsDirect c c := by
  simp only [isSubtype_iff]
  constructor
  · intro antisymm c cycle
    obtain ⟨d, edge, back⟩ := Relation.TransGen.head'_iff.mp cycle
    have same : c = d := antisymm c d (.single edge) back
    rw [← same] at edge
    exact irreflexive c edge
  · intro acyclic a b up down
    rcases Relation.reflTransGen_iff_eq_or_transGen.mp up with same | chain
    · exact same.symm
    · exact absurd (chain.trans_left down) (acyclic a)

/-- Of two elements of a list, the one with the lesser index stands before the other. -/
theorem pair_sublist_of_idxOf_lt {α : Type} [DecidableEq α] {a b : α} {xs : List α}
    (before : xs.idxOf a < xs.idxOf b) (member : b ∈ xs) : [a, b].Sublist xs := by
  induction xs with
  | nil => cases member
  | cons x rest ih =>
    have other : x ≠ b := by
      rintro rfl
      simp at before
    have later : b ∈ rest := List.mem_of_ne_of_mem other.symm member
    by_cases first : x = a
    · rw [first]
      exact (List.singleton_sublist.mpr later).cons_cons a
    · rw [List.idxOf_cons_ne _ first, List.idxOf_cons_ne _ other] at before
      exact (ih (Nat.lt_of_succ_lt_succ before) later).cons x

namespace Registry

variable {r : Registry}

/-! ### Registries without direct cycles -/

/-- The hierarchy of the registry is what its classes declare, and none of them names itself. -/
structure Sound (r : Registry) : Prop where
  consistent : r.Consistent
  irreflexive : ∀ e ∈ r.classes, e.name ∉ e.supertypes

/-- Registering classes one by one in an empty registry leaves a sound one. -/
theorem sound_registerEach (stringType : StaticType) (entries : List ClassEntry) :
    ((blank stringType).registerEach entries).1.Sound := by
  refine registerEach_induction ⟨consistent_blank stringType, List.forall_mem_nil _⟩ ?_
  intro r e sound accepted
  obtain ⟨free, other, -⟩ := refusal?_eq_none_iff.mp accepted
  exact ⟨sound.consistent.add free, List.forall_mem_cons.mpr ⟨other, sound.irreflexive⟩⟩

/-- The direct supertypes of a class are those that its declaration names. -/
theorem Consistent.isDirect_iff (consistent : r.Consistent) {sub sup : ClassName} :
    r.hierarchy.IsDirect sub sup ↔ ∃ e ∈ r.classes, e.name = sub ∧ sup ∈ e.supertypes := by
  rw [Hierarchy.IsDirect, ← Hierarchy.mem_supers, consistent.supers]
  constructor
  · intro member
    cases found : r.get? sub with
    | none => simp [found] at member
    | some e =>
      obtain ⟨inside, named⟩ := consistent.get?_eq_some_iff.mp found
      exact ⟨e, inside, named, (e.mem_explored sup).mp (by simpa [found] using member)⟩
  · rintro ⟨e, inside, named, declared⟩
    rw [consistent.get?_eq_some_iff.mpr ⟨inside, named⟩]
    exact (e.mem_explored sup).mpr declared

/-! ### The order of the calls -/

/-- Of the calls, one that registers the first class comes after one that registers the second. -/
def RegisteredAfter (r : Registry) (calls : List ClassEntry) (later earlier : ClassName) : Prop :=
  ∃ before e after, calls = before ++ e :: after ∧ e.name = later ∧
    ((r.registerEach before).1.register e).2 = none ∧ ∃ d, r.Enters before d ∧ d.name = earlier

/-- The later class is registered by the last call or by an earlier one. -/
theorem registeredAfter_concat_iff {calls : List ClassEntry} {last : ClassEntry}
    {later earlier : ClassName} :
    r.RegisteredAfter (calls ++ [last]) later earlier ↔ r.RegisteredAfter calls later earlier ∨
      last.name = later ∧ ((r.registerEach calls).1.register last).2 = none ∧
        ∃ d, r.Enters calls d ∧ d.name = earlier := by
  simp only [RegisteredAfter, concat_eq_append_cons_iff]
  constructor
  · rintro ⟨before, e, after, ⟨more, split, -⟩ | ⟨rfl, rfl, -⟩, named, registered, first⟩
    · exact Or.inl ⟨before, e, more, split, named, registered, first⟩
    · exact Or.inr ⟨named, registered, first⟩
  · rintro (⟨before, e, more, split, rest⟩ | rest)
    · exact ⟨before, e, more ++ [last], Or.inl ⟨more, split, rfl⟩, rest⟩
    · exact ⟨calls, last, [], Or.inr ⟨rfl, rfl, rfl⟩, rest⟩

/-- An empty registry lists the classes that are registered in it in the order of the calls, the
newest first. -/
theorem registeredAfter_iff {stringType : StaticType} {calls : List ClassEntry}
    {later earlier : ClassName} :
    (blank stringType).RegisteredAfter calls later earlier ↔
      [later, earlier].Sublist
        (((blank stringType).registerEach calls).1.classes.map (·.name)) := by
  induction calls using List.reverseRecOn with
  | nil =>
    refine iff_of_false ?_ ?_
    · rintro ⟨before, e, after, none, -⟩
      simp at none
    · exact fun inside => absurd inside.length_le (by simp [registerEach, blank, empty])
  | append_singleton calls last ih =>
    rw [registeredAfter_concat_iff, ih, registerEach_concat, register_snd]
    have listed : (∃ d, (blank stringType).Enters calls d ∧ d.name = earlier) ↔
        earlier ∈ ((blank stringType).registerEach calls).1.classes.map (·.name) := by
      simp [mem_classes_registerEach, blank, empty]
    cases refusal : ((blank stringType).registerEach calls).1.refusal? last with
    | some error => simp [register_of_refusal refusal]
    | none =>
      rw [listed, register_of_accepted refusal, add, List.map_cons, List.sublist_cons_iff]
      -- A new class stands in front of all others.
      simp [eq_comm]

namespace Sound

theorem not_isDirect_self (sound : r.Sound) (c : ClassName) : ¬ r.hierarchy.IsDirect c c := by
  intro edge
  obtain ⟨e, member, rfl, declared⟩ := sound.consistent.isDirect_iff.mp edge
  exact sound.irreflexive e member declared

/-- Only registered classes have supertypes. -/
theorem mem_names (sound : r.Sound) {sub sup : ClassName}
    (above : Relation.TransGen r.hierarchy.IsDirect sub sup) : sub ∈ r.classes.map (·.name) := by
  obtain ⟨c, edge, -⟩ := Relation.TransGen.head'_iff.mp above
  obtain ⟨e, member, rfl, -⟩ := sound.consistent.isDirect_iff.mp edge
  exact List.mem_map_of_mem member

/-- On every cycle there is a class with a supertype that is newer. -/
theorem exists_newer_of_cycle (sound : r.Sound) {c : ClassName}
    (cycle : Relation.TransGen r.hierarchy.IsDirect c c) :
    ∃ sub sup, Relation.ReflTransGen r.hierarchy.IsDirect c sub ∧ r.hierarchy.IsDirect sub sup ∧
      Relation.ReflTransGen r.hierarchy.IsDirect sup c ∧
      [sup, sub].Sublist (r.classes.map (·.name)) := by
  by_contra none_newer
  let index (d : ClassName) : Nat := (r.classes.map (·.name)).idxOf d
  -- Otherwise every edge of the cycle leads to an older class, and so does the cycle.
  have edge_lt {sub sup : ClassName} (up : Relation.ReflTransGen r.hierarchy.IsDirect c sub)
      (edge : r.hierarchy.IsDirect sub sup)
      (back : Relation.ReflTransGen r.hierarchy.IsDirect sup c) :
      index sub < index sup := by
    have lower : sub ∈ r.classes.map (·.name) := sound.mem_names (.single edge)
    have upper : sup ∈ r.classes.map (·.name) := sound.mem_names (.trans_right back cycle)
    have differ : index sub ≠ index sup := by
      intro same
      rw [List.idxOf_inj lower] at same
      rw [same] at edge
      exact sound.not_isDirect_self sup edge
    have not_after : ¬ index sup < index sub := fun before =>
      none_newer ⟨sub, sup, up, edge, back, pair_sublist_of_idxOf_lt before lower⟩
    omega
  have chain_lt {d : ClassName} (up : Relation.TransGen r.hierarchy.IsDirect c d) :
      Relation.ReflTransGen r.hierarchy.IsDirect d c → index c < index d := by
    induction up with
    | single edge => exact edge_lt .refl edge
    | tail chain edge ih =>
      intro back
      exact Nat.lt_trans (ih (back.head edge)) (edge_lt chain.to_reflTransGen edge back)
  exact Nat.lt_irrefl _ (chain_lt cycle .refl)

end Sound

/-- **Where cycles come from.** Classes are registered one by one in an empty registry, passing over
those that are refused. No class is a direct supertype of itself then, and subtyping is
antisymmetric exactly if no class can be reached from itself. Wherever a class can be reached from
itself, some class on the way has a direct supertype that was registered by a later call. So there
is no cycle if no class is registered after one that names it. -/
theorem cycle_of_registerEach (stringType : StaticType) (entries : List ClassEntry) :
    let start := blank stringType
    let r := (start.registerEach entries).1
    (∀ c, ¬ r.hierarchy.IsDirect c c) ∧
    ((∀ a b, r.hierarchy.isSubtype a b = true → r.hierarchy.isSubtype b a = true → a = b) ↔
      ∀ c, ¬ Relation.TransGen r.hierarchy.IsDirect c c) ∧
    (∀ c, Relation.TransGen r.hierarchy.IsDirect c c →
      ∃ sub sup, Relation.ReflTransGen r.hierarchy.IsDirect c sub ∧ r.hierarchy.IsDirect sub sup ∧
        Relation.ReflTransGen r.hierarchy.IsDirect sup c ∧ start.RegisteredAfter entries sup sub) ∧
    ((∀ e sup, start.Enters entries e → sup ∈ e.supertypes →
        ¬ start.RegisteredAfter entries sup e.name) →
      ∀ c, ¬ Relation.TransGen r.hierarchy.IsDirect c c) := by
  intro start r
  have sound : r.Sound := sound_registerEach stringType entries
  have later {c : ClassName} (cycle : Relation.TransGen r.hierarchy.IsDirect c c) :
      ∃ sub sup, Relation.ReflTransGen r.hierarchy.IsDirect c sub ∧ r.hierarchy.IsDirect sub sup ∧
        Relation.ReflTransGen r.hierarchy.IsDirect sup c ∧
        start.RegisteredAfter entries sup sub := by
    obtain ⟨sub, sup, up, edge, back, newer⟩ := sound.exists_newer_of_cycle cycle
    exact ⟨sub, sup, up, edge, back, registeredAfter_iff.mpr newer⟩
  refine ⟨sound.not_isDirect_self, Hierarchy.antisymm_iff sound.not_isDirect_self,
    fun c cycle => later cycle, ?_⟩
  intro orderly c cycle
  obtain ⟨sub, sup, -, edge, -, after⟩ := later cycle
  obtain ⟨e, member, rfl, declared⟩ := sound.consistent.isDirect_iff.mp edge
  have entered : start.Enters entries e :=
    (mem_classes_registerEach.mp member).resolve_left List.not_mem_nil
  exact orderly e sup entered declared after

end Registry

namespace Sample

/-- Two classes, each of which names the other as its superclass. -/
def entanglement : List ClassEntry :=
  [{ name := .topLevel "Left", superclass := some (.topLevel "Right") },
    { name := .topLevel "Right", superclass := some (.topLevel "Left") }]

/-- A registry with the two classes. -/
def entangled : Registry := ((Registry.blank (.ofClass "String")).registerEach entanglement).1

/-- A class, and after it one that names it as its superclass. -/
def stacked : List ClassEntry :=
  [{ name := .topLevel "Base" },
    { name := .topLevel "Derived", superclass := some (.topLevel "Base") }]

theorem isDirect_left_right :
    entangled.hierarchy.IsDirect (.topLevel "Left") (.topLevel "Right") := by
  unfold Hierarchy.IsDirect
  decide

theorem isDirect_right_left :
    entangled.hierarchy.IsDirect (.topLevel "Right") (.topLevel "Left") := by
  unfold Hierarchy.IsDirect
  decide

theorem transGen_left :
    Relation.TransGen entangled.hierarchy.IsDirect (.topLevel "Left") (.topLevel "Left") :=
  .tail (.single isDirect_left_right) isDirect_right_left

/-- The two classes are registered, and each is a subtype of the other. -/
theorem entangled_isSubtype :
    entangled.size = 2 ∧ ClassName.topLevel "Left" ≠ .topLevel "Right" ∧
    entangled.hierarchy.isSubtype (.topLevel "Left") (.topLevel "Right") = true ∧
    entangled.hierarchy.isSubtype (.topLevel "Right") (.topLevel "Left") = true ∧
    Relation.TransGen entangled.hierarchy.IsDirect (.topLevel "Left") (.topLevel "Left") :=
  ⟨by decide, by decide, Hierarchy.isSubtype_iff.mpr (.single isDirect_left_right),
    Hierarchy.isSubtype_iff.mpr (.single isDirect_right_left), transGen_left⟩

/-- The two classes reach themselves, so subtyping is not antisymmetric, and one of them was
registered after the other had named it. Where a class is registered before those that name it, none
reaches itself. -/
theorem entangled_registeredAfter :
    Relation.TransGen entangled.hierarchy.IsDirect (.topLevel "Left") (.topLevel "Left") ∧
    ¬ (∀ a b, entangled.hierarchy.isSubtype a b = true →
      entangled.hierarchy.isSubtype b a = true → a = b) ∧
    (∃ sub sup, entangled.hierarchy.IsDirect sub sup ∧
      (Registry.blank (.ofClass "String")).RegisteredAfter entanglement sup sub) ∧
    ∀ c, ¬ Relation.TransGen
      ((Registry.blank (.ofClass "String")).registerEach stacked).1.hierarchy.IsDirect c c := by
  obtain ⟨-, antisymm, later, -⟩ := Registry.cycle_of_registerEach (.ofClass "String") entanglement
  obtain ⟨sub, sup, -, edge, -, after⟩ := later _ transGen_left
  obtain ⟨-, -, -, acyclic⟩ := Registry.cycle_of_registerEach (.ofClass "String") stacked
  refine ⟨transGen_left, fun claimed => antisymm.mp claimed _ transGen_left,
    ⟨sub, sup, edge, after⟩, acyclic ?_⟩
  have older : ∀ e ∈ ((Registry.blank (.ofClass "String")).registerEach stacked).1.classes,
      ∀ sup ∈ e.supertypes, ¬ [sup, e.name].Sublist
        (((Registry.blank (.ofClass "String")).registerEach stacked).1.classes.map (·.name)) := by
    decide +kernel
  intro e sup entered declared
  rw [Registry.registeredAfter_iff]
  exact older e (Registry.mem_classes_registerEach.mpr (Or.inr entered)) sup declared

end Sample

end Componentry
