import Componentry.Library.Registry
import Mathlib.Data.List.Induction
import Mathlib.Data.List.Nodup

/-!
# The order of registration

Classes may be registered in any order. The supertypes of a class are recorded by its own
declaration and by nothing else, so the part of the hierarchy that starts at a class depends on this
declaration alone, even the order in which its supertypes are explored. What a registry answers
depends on which classes it has, and not on when they came.

## Main definitions

* `Registry.registerEach` registers classes one by one and collects the refusals
* `Registry.Enters` — a class is registered by one of several calls
* `ClassEntry.explored` is the order in which the supertypes of a class are explored
* `Registry.Consistent` — the hierarchy is what the registered classes declare
* `Registry.AnswersAlike` — two registries cannot be told apart by their answers

## Main results

* `Hierarchy.layers_congr` — the layers depend on the lists of direct supertypes only
* `Registry.registerEach_append` — a run goes on from the registry in which its first part ends
* `Registry.mem_classes_registerEach` — after a run, a registry has the classes whose calls went
  through
* `Registry.Consistent.answersAlike` — consistent registries with the same classes answer alike
* `Registry.registerEach_perm` — the order of registration does not matter
-/

namespace Componentry

/-! ### Hierarchies with the same direct supertypes -/

namespace Hierarchy

variable {h k : Hierarchy}

/-- A supertype that is recorded comes in front of those of its subtype, unless it is one of
them. -/
theorem supers_insert (h : Hierarchy) (sub sup c : ClassName) :
    (h.insert sub sup).supers c = if sub = c then (h.supers c).insert sup else h.supers c := by
  by_cases known : (sub, sup) ∈ h.edges
  · have member : sup ∈ h.supers sub := (h.mem_supers sub sup).mpr known
    rw [insert, if_pos known]
    split
    · rename_i same
      rw [← same, List.insert_of_mem member]
    · rfl
  · have missing : sup ∉ h.supers sub := mt (h.mem_supers sub sup).mp known
    rw [insert, if_neg known]
    split
    · rename_i same
      rw [← same, List.insert_of_not_mem missing]
      simp [supers]
    · rename_i other
      simp [supers, other]

/-- Supertypes that are recorded for one class leave those of all others alone. -/
theorem supers_foldl_insert (h : Hierarchy) (sub c : ClassName) (sups : List ClassName) :
    (sups.foldl (fun h sup => h.insert sub sup) h).supers c =
      if sub = c then sups.foldl (fun met sup => met.insert sup) (h.supers c) else h.supers c := by
  induction sups generalizing h with
  | nil => simp
  | cons sup sups ih =>
    rw [List.foldl_cons, ih, supers_insert]
    split <;> rfl

theorem nodup_edges_insert (distinct : h.edges.Nodup) (sub sup : ClassName) :
    (h.insert sub sup).edges.Nodup := by
  unfold insert
  split
  · exact distinct
  · rename_i missing
    exact List.nodup_cons.mpr ⟨missing, distinct⟩

theorem nodup_edges_foldl_insert (distinct : h.edges.Nodup) (sub : ClassName)
    (sups : List ClassName) : (sups.foldl (fun h sup => h.insert sub sup) h).edges.Nodup := by
  induction sups generalizing h with
  | nil => exact distinct
  | cons sup sups ih => exact ih (nodup_edges_insert distinct sub sup)

/-- There are as many edges as the lists of direct supertypes tell. -/
theorem length_edges_congr (distinct : h.edges.Nodup) (distinct' : k.edges.Nodup)
    (same : h.supers = k.supers) : h.edges.length = k.edges.length := by
  -- The edges themselves may stand in another order.
  apply List.Perm.length_eq
  rw [List.perm_ext_iff_of_nodup distinct distinct']
  rintro ⟨sub, sup⟩
  rw [← mem_supers, ← mem_supers, same]

theorem layersFrom_congr (same : h.supers = k.supers) (n : Nat) (seen layer : List ClassName) :
    h.layersFrom n seen layer = k.layersFrom n seen layer := by
  induction n generalizing seen layer with
  | zero => rfl
  | succ n ih =>
    cases layer with
    | nil => rfl
    | cons c cs => simp only [layersFrom, nextLayer, same, ih]

/-- The layers of a hierarchy depend on the lists of direct supertypes only. -/
theorem layers_congr (distinct : h.edges.Nodup) (distinct' : k.edges.Nodup)
    (same : h.supers = k.supers) : h.layers = k.layers := by
  funext c
  rw [layers, layers, length_edges_congr distinct distinct' same, layersFrom_congr same]

theorem conversion_congr (same : h.layers = k.layers) : h.conversion = k.conversion := by
  funext source target
  simp only [conversion, distance, same]

theorem convertAll_congr (same : h.conversion = k.conversion) : h.convertAll = k.convertAll := by
  funext args params
  induction args generalizing params with
  | nil => cases params <;> rfl
  | cons arg args ih =>
    cases params with
    | nil => rfl
    | cons param params => simp only [convertAll, same, ih]

/-- Overload resolution sees the hierarchy through conversions only. -/
theorem resolve_congr (same : h.conversion = k.conversion) : h.resolve = k.resolve := by
  funext owner name candidates args
  have applicable : h.applicable? = k.applicable? := by
    funext args m
    rw [applicable?, applicable?, convertAll_congr same]
  have specific : h.mostSpecific = k.mostSpecific := by
    funext ms
    simp only [mostSpecific, moreSpecific, converts, same]
  simp only [resolve, select, applicable, specific]

end Hierarchy

/-! ### What registration makes of a class -/

namespace ClassEntry

/-- The direct supertypes of a class in the order in which they are explored: the one that is
declared last comes first, and of repeated ones the first counts. -/
def explored (e : ClassEntry) : List ClassName :=
  e.supertypes.foldl (fun met sup => met.insert sup) []

theorem mem_explored (e : ClassEntry) (c : ClassName) : c ∈ e.explored ↔ c ∈ e.supertypes := by
  have collected (met sups : List ClassName) :
      c ∈ sups.foldl (fun met sup => met.insert sup) met ↔ c ∈ met ∨ c ∈ sups := by
    induction sups generalizing met with
    | nil => simp
    | cons sup sups ih =>
      rw [List.foldl_cons, ih, List.mem_insert_iff, List.mem_cons]
      tauto
  simp [explored, collected]

/-- What is wrong with a declaration, whatever is registered. -/
def flaw? (e : ClassEntry) : Option RegistrationError :=
  if e.name ∈ e.supertypes then some (.selfInheritance e.name.text)
  else (MethodEntry.firstRepeated [] e.methods).map fun m => .duplicateMember e.name.text m.name

end ClassEntry

namespace Registry

variable {r s : Registry}

/-- A class is not refused if its name is free, it is not its own supertype and declares no method
twice. -/
theorem refusal?_eq_none_iff {e : ClassEntry} :
    r.refusal? e = none ↔ r.contains e.name = false ∧ e.name ∉ e.supertypes ∧
      MethodEntry.firstRepeated [] e.methods = none := by
  unfold refusal?
  split
  · simp [*]
  · split <;> simp [*]

/-- A class whose name is free is refused only for what is wrong with its declaration. -/
theorem refusal?_eq_flaw? {e : ClassEntry} (free : r.contains e.name = false) :
    r.refusal? e = e.flaw? := by
  simp [refusal?, free, ClassEntry.flaw?]

theorem get?_add (r : Registry) (e : ClassEntry) (name : ClassName) :
    (r.add e).get? name = if e.name = name then some e else r.get? name := by
  by_cases same : e.name = name <;> simp [get?, add, same]

/-- Names that differ from that of a new class stay free. -/
theorem free_add {e : ClassEntry} {others : List ClassEntry} (apart : e.name ∉ others.map (·.name))
    (free : ∀ other ∈ others, r.contains other.name = false) :
    ∀ other ∈ others, (r.add e).contains other.name = false := by
  intro other member
  have differ : e.name ≠ other.name := by
    intro same
    rw [same] at apart
    exact apart (List.mem_map_of_mem member)
  rw [contains, get?_add, if_neg differ]
  exact free other member

/-- The hierarchy of a registry is what its classes declare, each of them under a name of its
own. -/
structure Consistent (r : Registry) : Prop where
  distinct : (r.classes.map (·.name)).Nodup
  nodup_edges : r.hierarchy.edges.Nodup
  /-- Only the declaration of a class tells its direct supertypes. -/
  supers : ∀ c, r.hierarchy.supers c = ((r.get? c).map ClassEntry.explored).getD []

namespace Consistent

theorem get?_eq_some_iff (h : r.Consistent) {name : ClassName} {e : ClassEntry} :
    r.get? name = some e ↔ e ∈ r.classes ∧ e.name = name := by
  constructor
  · intro found
    exact ⟨List.mem_of_find?_eq_some found, by simpa using List.find?_some found⟩
  · rintro ⟨member, rfl⟩
    -- There is some class of this name, and no two classes share one.
    have some_found : (r.get? e.name).isSome := by
      rw [get?, List.find?_isSome]
      exact ⟨e, member, by simp⟩
    obtain ⟨other, found⟩ := Option.isSome_iff_exists.mp some_found
    have named : other.name = e.name := by simpa using List.find?_some found
    have inside : other ∈ r.classes := List.mem_of_find?_eq_some found
    rw [found, List.inj_on_of_nodup_map h.distinct inside member named]

/-- A new class keeps a registry consistent. -/
theorem add (h : r.Consistent) {e : ClassEntry} (free : r.contains e.name = false) :
    (r.add e).Consistent := by
  have unknown : r.get? e.name = none := by simpa [contains] using free
  refine ⟨?_, Hierarchy.nodup_edges_foldl_insert h.nodup_edges e.name e.supertypes, fun c => ?_⟩
  · refine List.nodup_cons.mpr ⟨fun taken => ?_, h.distinct⟩
    obtain ⟨other, member, named⟩ := List.mem_map.mp taken
    rw [h.get?_eq_some_iff.mpr ⟨member, named⟩] at unknown
    cases unknown
  · rw [get?_add]
    show (e.supertypes.foldl (fun h sup => h.insert e.name sup) r.hierarchy).supers c = _
    rw [Hierarchy.supers_foldl_insert]
    split
    · rename_i same
      -- Nothing was recorded for the class before, since it was not registered.
      have none_before : r.hierarchy.supers c = [] := by
        rw [h.supers, ← same, unknown]
        rfl
      rw [none_before]
      rfl
    · exact h.supers c

end Consistent

/-! ### Runs of calls -/

/-- Registers classes one by one, each in the registry that the call before it left, whether or not
that call went through. Also tells which classes were refused, and why. -/
def registerEach (r : Registry) : List ClassEntry → Registry × List (ClassEntry × RegistrationError)
  | [] => (r, [])
  | e :: rest =>
    let call := r.register e
    let run := call.1.registerEach rest
    (run.1, (call.2.map (e, ·)).toList ++ run.2)

theorem registerEach_cons (r : Registry) (e : ClassEntry) (rest : List ClassEntry) :
    r.registerEach (e :: rest) =
      (((r.register e).1.registerEach rest).1,
        ((r.register e).2.map (e, ·)).toList ++ ((r.register e).1.registerEach rest).2) :=
  rfl

/-- What holds of a registry and is kept by every class that is not refused holds after any
classes. -/
theorem registerEach_induction {P : Registry → Prop} {entries : List ClassEntry} (start : P r)
    (step : ∀ (r : Registry) (e : ClassEntry), P r → r.refusal? e = none → P (r.add e)) :
    P (r.registerEach entries).1 := by
  induction entries generalizing r with
  | nil => exact start
  | cons e rest ih =>
    rw [registerEach_cons]
    apply ih
    cases refusal : r.refusal? e with
    | some error =>
      rw [register_of_refusal refusal]
      exact start
    | none =>
      rw [register_of_accepted refusal]
      exact step r e start refusal

/-- A run goes on from the registry in which its first part ends. -/
theorem registerEach_append (r : Registry) (calls later : List ClassEntry) :
    r.registerEach (calls ++ later) =
      (((r.registerEach calls).1.registerEach later).1,
        (r.registerEach calls).2 ++ ((r.registerEach calls).1.registerEach later).2) := by
  induction calls generalizing r with
  | nil => rfl
  | cons e rest ih => simp [registerEach_cons, ih]

/-- What one more call does to a registry. -/
theorem registerEach_concat (r : Registry) (calls : List ClassEntry) (e : ClassEntry) :
    (r.registerEach (calls ++ [e])).1 = ((r.registerEach calls).1.register e).1 := by
  rw [registerEach_append]
  rfl

/-- The class is registered by one of the calls: the call goes through when its turn comes. -/
def Enters (r : Registry) (calls : List ClassEntry) (e : ClassEntry) : Prop :=
  ∃ before after, calls = before ++ e :: after ∧ ((r.registerEach before).1.register e).2 = none

theorem not_enters_nil {e : ClassEntry} : ¬ r.Enters [] e := by
  rintro ⟨before, after, none, -⟩
  simp at none

/-- Where one of several calls stands: it is the last one, or one of the calls before that. -/
theorem concat_eq_append_cons_iff {calls before after : List ClassEntry} {last e : ClassEntry} :
    calls ++ [last] = before ++ e :: after ↔
      (∃ more, calls = before ++ e :: more ∧ after = more ++ [last]) ∨
        calls = before ∧ last = e ∧ after = [] := by
  constructor
  · intro split
    rcases List.eq_nil_or_concat' after with rfl | ⟨more, final, rfl⟩
    · obtain ⟨rfl, same⟩ := List.append_inj' split rfl
      exact Or.inr ⟨rfl, List.singleton_inj.mp same, rfl⟩
    · rw [← List.cons_append, ← List.append_assoc] at split
      obtain ⟨rfl, same⟩ := List.append_inj' split rfl
      exact Or.inl ⟨more, rfl, by rw [List.singleton_inj.mp same]⟩
  · rintro (⟨more, rfl, rfl⟩ | ⟨rfl, rfl, rfl⟩)
    · simp
    · rfl

/-- A class is registered by the last call or by an earlier one. -/
theorem enters_concat_iff {calls : List ClassEntry} {last e : ClassEntry} :
    r.Enters (calls ++ [last]) e ↔
      r.Enters calls e ∨ e = last ∧ ((r.registerEach calls).1.register last).2 = none := by
  simp only [Enters, concat_eq_append_cons_iff]
  constructor
  · rintro ⟨before, after, ⟨more, split, -⟩ | ⟨rfl, rfl, -⟩, registered⟩
    · exact Or.inl ⟨before, more, split, registered⟩
    · exact Or.inr ⟨rfl, registered⟩
  · rintro (⟨before, more, split, registered⟩ | ⟨rfl, registered⟩)
    · exact ⟨before, more ++ [last], Or.inl ⟨more, split, rfl⟩, registered⟩
    · exact ⟨calls, [], Or.inr ⟨rfl, rfl, rfl⟩, registered⟩

/-- After a run, a registry has the classes it had before and those whose calls went through. -/
theorem mem_classes_registerEach {calls : List ClassEntry} {e : ClassEntry} :
    e ∈ (r.registerEach calls).1.classes ↔ e ∈ r.classes ∨ r.Enters calls e := by
  induction calls using List.reverseRecOn with
  | nil => simp [registerEach, not_enters_nil]
  | append_singleton calls last ih =>
    rw [enters_concat_iff, registerEach_concat, ← or_assoc, ← ih, register_snd]
    cases refusal : (r.registerEach calls).1.refusal? last with
    | some error => simp [register_of_refusal refusal]
    | none => simp [register_of_accepted refusal, add, or_comm]

/-- Classes with free and different names are registered, or refused, each for itself. -/
theorem registerEach_eq {entries : List ClassEntry} (distinct : (entries.map (·.name)).Nodup)
    (free : ∀ e ∈ entries, r.contains e.name = false) :
    r.registerEach entries =
      ((entries.filter (·.flaw?.isNone)).foldl Registry.add r,
        entries.filterMap fun e => e.flaw?.map (e, ·)) := by
  induction entries generalizing r with
  | nil => rfl
  | cons e rest ih =>
    rw [List.map_cons, List.nodup_cons] at distinct
    rw [List.forall_mem_cons] at free
    have refusal := refusal?_eq_flaw? free.1
    cases flaw : e.flaw? with
    | some error =>
      have refused : r.register e = (r, some error) := register_of_refusal (refusal.trans flaw)
      simp [registerEach_cons, refused, ih distinct.2 free.2, flaw]
    | none =>
      have registered : r.register e = (r.add e, none) := register_of_accepted (refusal.trans flaw)
      have still_free := free_add distinct.1 free.2
      simp [registerEach_cons, registered, ih distinct.2 still_free, flaw]

/-- A run of additions under free and different names keeps a registry consistent. -/
theorem Consistent.foldl_add (h : r.Consistent) {entries : List ClassEntry}
    (distinct : (entries.map (·.name)).Nodup) (free : ∀ e ∈ entries, r.contains e.name = false) :
    (entries.foldl Registry.add r).Consistent := by
  induction entries generalizing r with
  | nil => exact h
  | cons e rest ih =>
    rw [List.map_cons, List.nodup_cons] at distinct
    rw [List.forall_mem_cons] at free
    exact ih (h.add free.1) distinct.2 (free_add distinct.1 free.2)

/-! ### Registries that answer alike -/

/-- Two registries cannot be told apart by their answers. -/
structure AnswersAlike (r s : Registry) : Prop where
  get? : ∀ name, r.get? name = s.get? name
  contains : ∀ name, r.contains name = s.contains name
  size : r.size = s.size
  ancestors : ∀ c, r.hierarchy.ancestors c = s.hierarchy.ancestors c
  distance : ∀ sub sup, r.hierarchy.distance sub sup = s.hierarchy.distance sub sup
  isSubtype : ∀ sub sup, r.hierarchy.isSubtype sub sup = s.hierarchy.isSubtype sub sup
  visibleMethods : ∀ owner name, r.visibleMethods owner name = s.visibleMethods owner name
  resolveType : ∀ name, r.library.resolveType name = s.library.resolveType name
  resolveMethod : ∀ owner name args,
    r.library.resolveMethod owner name args = s.library.resolveMethod owner name args
  defaultConstructor : ∀ type, r.library.defaultConstructor type = s.library.defaultConstructor type
  isAssignable : ∀ source target,
    r.library.isAssignable source target = s.library.isAssignable source target

namespace Consistent

/-- Consistent registries with the same classes find the same class under every name. -/
theorem get?_congr (h : r.Consistent) (h' : s.Consistent) (same : r.classes.Perm s.classes) :
    r.get? = s.get? := by
  funext name
  apply Option.ext
  intro e
  rw [h.get?_eq_some_iff, h'.get?_eq_some_iff, same.mem_iff]

/-- Consistent registries with the same classes have the same layers of supertypes. -/
theorem layers_congr (h : r.Consistent) (h' : s.Consistent) (same : r.classes.Perm s.classes) :
    r.hierarchy.layers = s.hierarchy.layers := by
  apply Hierarchy.layers_congr h.nodup_edges h'.nodup_edges
  funext c
  rw [h.supers, h'.supers, h.get?_congr h' same]

/-- What a consistent registry answers depends only on which classes it has. -/
theorem answersAlike (h : r.Consistent) (h' : s.Consistent) (same : r.classes.Perm s.classes) :
    r.AnswersAlike s := by
  have classes := h.get?_congr h' same
  have layers := h.layers_congr h' same
  have conversion := Hierarchy.conversion_congr layers
  have visible : r.visibleMethods = s.visibleMethods := by
    funext owner name
    simp only [Registry.visibleMethods, declaredMethods, Hierarchy.ancestors, layers, classes]
  constructor
  case get? => exact congrFun classes
  case contains => simp [Registry.contains, classes]
  case size => exact same.length_eq
  case ancestors => simp [Hierarchy.ancestors, layers]
  case distance => simp [Hierarchy.distance, layers]
  case isSubtype => simp [Hierarchy.isSubtype, Hierarchy.distance, layers]
  case visibleMethods => simp [visible]
  case resolveType => simp [library, Registry.resolveType, classes]
  case resolveMethod =>
    simp [library, Registry.resolveMethod, visible, Hierarchy.resolve_congr conversion]
  case defaultConstructor => simp [library, Registry.defaultConstructor, classes]
  case isAssignable => simp [library, Hierarchy.converts, conversion]

end Consistent

/-- A registry without classes, whose strings have the given type. -/
def blank (stringType : StaticType) : Registry := { empty with stringType }

theorem consistent_blank (stringType : StaticType) : (blank stringType).Consistent :=
  ⟨List.nodup_nil, List.nodup_nil, fun _ => rfl⟩

theorem classes_foldl_add (r : Registry) (entries : List ClassEntry) :
    (entries.foldl Registry.add r).classes = entries.reverse ++ r.classes := by
  induction entries generalizing r with
  | nil => rfl
  | cons e rest ih => simp [ih, Registry.add]

/-- **The order of registration does not matter.** Classes with different names are registered one
by one in an empty registry, and then in another one in a different order. The same classes are
refused, with the same errors, and the two registries cannot be told apart by their answers. -/
theorem registerEach_perm (stringType : StaticType) (entries shuffled : List ClassEntry)
    (distinct : (entries.map (·.name)).Nodup) (perm : entries.Perm shuffled) :
    ((blank stringType).registerEach entries).2.Perm ((blank stringType).registerEach shuffled).2 ∧
    ((blank stringType).registerEach entries).1.AnswersAlike
      ((blank stringType).registerEach shuffled).1 := by
  have distinct' : (shuffled.map (·.name)).Nodup := (perm.map _).nodup_iff.mp distinct
  have free (es : List ClassEntry) : ∀ e ∈ es, (blank stringType).contains e.name = false :=
    fun _ _ => rfl
  have accepted {es : List ClassEntry} (nodup : (es.map (·.name)).Nodup) :
      ((es.filter (·.flaw?.isNone)).foldl Registry.add (blank stringType)).Consistent :=
    (consistent_blank stringType).foldl_add (nodup.sublist (List.filter_sublist.map _)) (free _)
  rw [registerEach_eq distinct (free _), registerEach_eq distinct' (free _)]
  refine ⟨perm.filterMap _, (accepted distinct).answersAlike (accepted distinct') ?_⟩
  rw [classes_foldl_add, classes_foldl_add]
  refine List.Perm.append_right _ ?_
  exact (List.reverse_perm _).trans ((perm.filter _).trans (List.reverse_perm _).symm)

end Registry

namespace Sample

/-- A class that names itself as its superclass. -/
def loop : ClassEntry where
  name := .topLevel "Loop"
  superclass := some (.topLevel "Loop")

/-- A square is a shape and can be drawn, and a shape is a square; both supertypes of the square
declare how it is drawn. -/
def shapes : List ClassEntry :=
  [{ name := .topLevel "Square", superclass := some (.topLevel "Shape"),
      interfaces := [.topLevel "Drawable"] },
    { name := .topLevel "Shape", superclass := some (.topLevel "Square"),
      methods := [⟨"draw", [.primitive .int], .void⟩] },
    loop,
    { name := .topLevel "Drawable", methods := [⟨"draw", [.primitive .int], .primitive .int⟩] }]

/-- The shapes may come in reverse: the loop is refused in any case, and of the two declarations
that of the interface hides the other. -/
theorem registerEach_shapes :
    let first := (Registry.blank (.ofClass "String")).registerEach shapes
    let second := (Registry.blank (.ofClass "String")).registerEach shapes.reverse
    (shapes.map (·.name)).Nodup ∧ shapes.Perm shapes.reverse ∧
    first.2 = [(loop, .selfInheritance "Loop")] ∧ first.2.Perm second.2 ∧
    first.1.visibleMethods (.topLevel "Square") "draw" =
      [⟨.topLevel "Drawable", "draw", [.primitive .int], .primitive .int⟩] ∧
    first.1.AnswersAlike second.1 := by
  have distinct : (shapes.map (·.name)).Nodup := by decide
  have perm : shapes.Perm shapes.reverse := (List.reverse_perm shapes).symm
  obtain ⟨refused, alike⟩ :=
    Registry.registerEach_perm (.ofClass "String") shapes shapes.reverse distinct perm
  exact ⟨distinct, perm, by decide +kernel, refused, by decide +kernel, alike⟩

end Sample

end Componentry
