import Componentry.Proofs.Library.Cycles

/-!
# Registration is atomic

A registry keeps two things: the declarations of its classes, and the hierarchy that the
declarations imply. Every reason to refuse a class is checked before either is touched. So a call
either adds a class together with all the edges to its supertypes, or it adds nothing at all, and
the two never get out of step, however calls that go through and calls that fail take turns.

## Main definitions

* `MethodEntry.signature` is what tells the methods of a class apart

## Main results

* `Registry.exists_refusal_iff` — when a class is refused
* `Registry.register_fst_of_refused` — what a call that fails leaves alone
* `Registry.registration_atomic` — what calls that fail leave alone, and what a registry has after
  any calls
-/

namespace Componentry

/-! ### Reasons to refuse a class -/

namespace MethodEntry

/-- The name and the parameters of a method, by which it is told apart from the others of its
class. -/
def signature (m : MethodEntry) : String × List StaticType := (m.name, m.params)

/-- No method is repeated exactly if the signatures differ from each other and from those already
seen. -/
theorem firstRepeated_eq_none_iff {seen : List (String × List StaticType)} {ms : List MethodEntry} :
    firstRepeated seen ms = none ↔ (ms.map signature).Nodup ∧ ∀ m ∈ ms, m.signature ∉ seen := by
  induction ms generalizing seen with
  | nil => simp [firstRepeated]
  | cons m rest ih =>
    rw [firstRepeated, List.map_cons, List.nodup_cons, List.forall_mem_cons]
    by_cases repeated : (m.name, m.params) ∈ seen
    · rw [if_pos repeated]
      refine iff_of_false (Option.some_ne_none m) ?_
      rintro ⟨-, fresh, -⟩
      exact fresh repeated
    · have fresh : m.signature ∉ seen := repeated
      rw [if_neg repeated, ih]
      -- The signature of the first method is among those seen when the others are looked at.
      constructor
      · rintro ⟨distinct, unseen⟩
        refine ⟨⟨fun again => ?_, distinct⟩, fresh, fun o member => ?_⟩
        · obtain ⟨o, member, same⟩ := List.mem_map.mp again
          apply unseen o member
          rw [same]
          exact List.mem_cons_self
        · exact fun old => unseen o member (List.mem_cons_of_mem _ old)
      · rintro ⟨⟨single, distinct⟩, -, unseen⟩
        refine ⟨distinct, fun o member => ?_⟩
        rw [List.mem_cons, not_or]
        refine ⟨fun same => single ?_, unseen o member⟩
        exact List.mem_map.mpr ⟨o, member, same⟩

end MethodEntry

theorem ClassEntry.mem_supertypes {e : ClassEntry} {c : ClassName} :
    c ∈ e.supertypes ↔ e.superclass = some c ∨ c ∈ e.interfaces := by
  simp [supertypes]

namespace Registry

variable {r : Registry} {calls : List ClassEntry} {e : ClassEntry}

/-- A class is refused exactly if its name is taken, it names itself as a supertype, or two of its
methods have the same signature. -/
theorem exists_refusal_iff :
    (∃ error, (r.register e).2 = some error) ↔
      r.contains e.name = true ∨ e.superclass = some e.name ∨ e.name ∈ e.interfaces ∨
        ¬ (e.methods.map MethodEntry.signature).Nodup := by
  have accepted : r.refusal? e = none ↔
      ¬ (r.contains e.name = true ∨ e.superclass = some e.name ∨ e.name ∈ e.interfaces ∨
        ¬ (e.methods.map MethodEntry.signature).Nodup) := by
    rw [refusal?_eq_none_iff, ClassEntry.mem_supertypes, MethodEntry.firstRepeated_eq_none_iff]
    simp [and_assoc]
  simp only [register_snd, ← Option.isSome_iff_exists, Option.isSome_iff_ne_none, ne_eq, accepted,
    not_not]

/-- A call that fails leaves the registry as it was. -/
theorem register_fst_of_refused {error : RegistrationError}
    (refused : (r.register e).2 = some error) : (r.register e).1 = r := by
  rw [register_snd] at refused
  rw [register_of_refusal refused]

/-! ### Runs of calls -/

/-- A call that fails can be left out: whatever follows, the registry is the same in the end. -/
theorem registerEach_skip {error : RegistrationError} (later : List ClassEntry)
    (refused : ((r.registerEach calls).1.register e).2 = some error) :
    (r.registerEach (calls ++ e :: later)).1 = (r.registerEach (calls ++ later)).1 := by
  rw [registerEach_append, registerEach_append, registerEach_cons, register_fst_of_refused refused]

/-- **Registration is atomic.** Classes are registered one by one in an empty registry, passing over
those that are refused.

The next call fails exactly if the name of its class is taken, the class names itself as its
superclass or as one of its interfaces, or it declares two methods with the same name and
parameters. A call that fails leaves no trace: the registry is the same as without the call,
immediately and after any further calls. The classes of the registry are those whose calls went
through, each of them found under its name, and its edges lead from each of these classes to its
superclass and its interfaces, without repetition. -/
theorem registration_atomic (stringType : StaticType) (calls : List ClassEntry) :
    let start := blank stringType
    let r := (start.registerEach calls).1
    (∀ e, (∃ error, (r.register e).2 = some error) ↔
      r.contains e.name = true ∨ e.superclass = some e.name ∨ e.name ∈ e.interfaces ∨
        ¬ (e.methods.map MethodEntry.signature).Nodup) ∧
    (∀ e error, (r.register e).2 = some error →
      (r.register e).1 = r ∧ (start.registerEach (calls ++ [e])).1 = r ∧
      ∀ later, (start.registerEach (calls ++ e :: later)).1 =
        (start.registerEach (calls ++ later)).1) ∧
    (∀ name e, r.get? name = some e ↔ start.Enters calls e ∧ e.name = name) ∧
    (∀ c s, (c, s) ∈ r.hierarchy.edges ↔
      ∃ e, start.Enters calls e ∧ e.name = c ∧ (e.superclass = some s ∨ s ∈ e.interfaces)) ∧
    r.hierarchy.edges.Nodup := by
  intro start r
  have consistent : r.Consistent := (sound_registerEach stringType calls).consistent
  have entered (e : ClassEntry) : e ∈ r.classes ↔ start.Enters calls e := by
    rw [mem_classes_registerEach]
    exact or_iff_right List.not_mem_nil
  refine ⟨fun e => exists_refusal_iff, ?_, ?_, ?_, consistent.nodup_edges⟩
  · intro e error refused
    refine ⟨register_fst_of_refused refused, ?_, fun later => registerEach_skip later refused⟩
    rw [registerEach_concat, register_fst_of_refused refused]
  · intro name e
    rw [consistent.get?_eq_some_iff, entered]
  · intro c s
    rw [← Hierarchy.IsDirect, consistent.isDirect_iff]
    simp only [entered, ClassEntry.mem_supertypes]

end Registry

namespace Sample

/-- An oval is a shape. It declares twice how it is drawn, with different results. -/
def oval : ClassEntry where
  name := .topLevel "Oval"
  superclass := some (.topLevel "Shape")
  methods := [⟨"draw", [], .void⟩, ⟨"draw", [], .primitive .int⟩]

/-- Of the shapes, the loop is refused, and so is the oval after them. Neither leaves an edge
behind, whether or not the shapes are registered once more after the oval. -/
theorem oval_refused :
    let start := Registry.blank (.ofClass "String")
    let r := (start.registerEach shapes).1
    (r.register oval).2 = some (.duplicateMember "Oval" "draw") ∧ (r.register oval).1 = r ∧
    ¬ (oval.methods.map MethodEntry.signature).Nodup ∧
    (start.registerEach (shapes ++ [oval])).1 = r ∧
    (start.registerEach (shapes ++ oval :: shapes)).1 = (start.registerEach (shapes ++ shapes)).1 ∧
    ¬ start.Enters shapes loop ∧
    r.hierarchy.edges = [(.topLevel "Shape", .topLevel "Square"),
      (.topLevel "Square", .topLevel "Drawable"), (.topLevel "Square", .topLevel "Shape")] := by
  intro start r
  obtain ⟨-, skipped, found, -, -⟩ := Registry.registration_atomic (.ofClass "String") shapes
  have refused : (r.register oval).2 = some (.duplicateMember "Oval" "draw") := by decide +kernel
  obtain ⟨same, unchanged, later⟩ := skipped oval _ refused
  refine ⟨refused, same, by decide, unchanged, later shapes, fun entered => ?_, by decide +kernel⟩
  have registered : r.get? loop.name = some loop := (found loop.name loop).mpr ⟨entered, rfl⟩
  have missing : r.get? loop.name = none := by decide +kernel
  rw [missing] at registered
  cases registered

end Sample

end Componentry
