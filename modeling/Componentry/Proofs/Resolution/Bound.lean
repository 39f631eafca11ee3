import Componentry.Proofs.Resolution.Acceptance
import Componentry.Proofs.Tree.LiteralTypes
import Mathlib.Data.List.Forall2

/-!
# Bound trees

What emission can rely on after a resolution without reports: every node has a type and a way to be
obtained, every value was accepted by the method that it is passed to, and no two fields share a
name.

## Main definitions

* `Library.Obtains`, `Library.Passes` — how a node is obtained and a value is passed
* `Property.Bound`, `Tree.Bound` — every node and value of a property or tree is bound in this way

## Main results

* `Tree.Acceptable.bound_resolved` — resolution makes a bound tree of an acceptable one
* `Tree.bound_of_resolve` — so it does of a tree of literals if it reports nothing
-/

namespace Componentry

/-- How a node of the given type, in a property of the owner, is obtained. -/
inductive Library.Obtains (lib : Library) (owner : StaticType) (key : String) (type : StaticType) :
    NodeBinding → Prop
  /-- The owner hands it out. -/
  | getter {method : Method} (found : lib.resolveMethod owner (Naming.getter key) [] = .ok method)
      (returns : method.returnsValue = true)
        (assignable : lib.isAssignable method.result type = true) :
      Obtains lib owner key type (.getter method)
  /-- It is created. -/
  | constructor {constructor : Constructor}
    (found : lib.defaultConstructor type = some constructor) :
      Obtains lib owner key type (.constructor constructor)

variable {ε : Type} [Expression ε]

/-- The named method of the owner accepts a value that satisfies `V`; `value` is this value where it
is passed. -/
def Library.Passes (lib : Library) (V : ε → Prop) (owner : StaticType) (name : String)
    (method : Method) (value : ε) : Prop :=
  ∃ e, V e ∧ lib.resolveMethod owner name [Expression.type e] = .ok method ∧
    value = method.adaptArgument e

namespace Property

mutual

/-- The property is bound, and so is everything in it; its owner has the given number and type. What
has no value of its own is applied by no method. -/
def Bound (lib : Library) (V : ε → Prop) (index : Nat) (owner : StaticType) : Property ε → Prop
  | scalar info value =>
    ∃ method, info.binding = .setter method ∧
      lib.Passes V owner (Naming.setter info.key) method value
  | list info items =>
    ∃ methods, info.binding = .adders (methods.map some) ∧
      List.Forall₂ (lib.Passes V owner (Naming.adder info.key)) methods items
  | nested info node properties =>
    info.binding = .unbound ∧ node.parent = some index ∧
      ∃ type, node.type = some type ∧ lib.Obtains owner info.key type node.binding ∧
        BoundAll lib V node.index type properties
  | reference info _ => info.binding = .unbound

/-- All properties of a list are bound. -/
def BoundAll (lib : Library) (V : ε → Prop) (index : Nat) (owner : StaticType) :
    List (Property ε) → Prop
  | [] => True
  | p :: rest => p.Bound lib V index owner ∧ BoundAll lib V index owner rest

end

end Property

/-- The tree is bound, and its fields have different names. -/
structure Tree.Bound (lib : Library) (V : ε → Prop) (t : Tree ε) : Prop where
  parent_root : t.root.info.parent = none
  root : ∃ type constructor, t.root.info.type = some type ∧
    t.root.info.binding = .constructor constructor ∧
    lib.defaultConstructor type = some constructor ∧
    Property.BoundAll lib V t.root.info.index type t.root.properties
  nodup_indices : t.root.indices.Nodup
  nodup_names : (t.declarations.map (·.1)).Nodup

/-! ### Resolved trees are bound -/

variable {ctx : Context}

/-- A node that is handed out has a getter, and any other one a constructor. -/
theorem Library.nodeBinding_cases {lib : Library} {owner type : StaticType} {key : String}
    (unambiguous : ∀ error, lib.resolveMethod owner (Naming.getter key) [] = .error error →
      error.isNotFound = true)
    (obtained : lib.handsOut owner key type = true ∨
      ∃ constructor, lib.defaultConstructor type = some constructor) :
    lib.Obtains owner key type (lib.nodeBinding owner key type) ∧
      ((lib.handsOut owner key type = true ∧ ∃ method,
        lib.nodeBinding owner key type = .getter method) ∨
        (lib.handsOut owner key type = false ∧
          ∃ constructor, lib.nodeBinding owner key type = .constructor constructor)) := by
  rcases lib.lookupGetter_cases owner key type with ⟨method, found, hit, returns, assignable⟩ |
    ⟨none, kept, -⟩ | ⟨error, -, failed, ambiguous⟩
  · have handed : lib.handsOut owner key type = true := by simp [handsOut, hit, returns, assignable]
    have binding : lib.nodeBinding owner key type = .getter method := by simp [nodeBinding, found]
    rw [binding]
    exact ⟨.getter hit returns assignable, Or.inl ⟨handed, method, rfl⟩⟩
  · rw [kept] at obtained ⊢
    obtain ⟨constructor, found⟩ := obtained.resolve_left Bool.false_ne_true
    have binding : lib.nodeBinding owner key type = .constructor constructor := by
      simp [nodeBinding, none, constructedBinding, found]
    rw [binding]
    exact ⟨.constructor found, Or.inr ⟨rfl, constructor, rfl⟩⟩
  · rw [unambiguous error failed] at ambiguous
    cases ambiguous

namespace Property

mutual

theorem indices_resolved :
    ∀ (owner : StaticType) (p : Property ε), (p.resolved ctx owner).indices = p.indices
  | _, scalar _ _ | _, list _ _ | _, reference _ _ => rfl
  | owner, nested info node properties => by
    rw [resolved]
    split
    · rename_i type known
      simp only [indices, indicesAll_resolvedAll type properties]
    · rfl

/-- Resolution keeps the numbers of nodes. -/
theorem indicesAll_resolvedAll :
    ∀ (owner : StaticType) (ps : List (Property ε)),
      indicesAll (resolvedAll ctx owner ps) = indicesAll ps
  | _, [] => rfl
  | owner, p :: rest => by
    simp only [resolvedAll, indicesAll, indices_resolved owner p, indicesAll_resolvedAll owner rest]

end

mutual

/-- A field is declared for a property in place of every name that is claimed for it. -/
theorem names_resolved {V : ε → Prop} {index : Nat} :
    ∀ {owner : StaticType} {p : Property ε}, p.Fits ctx owner → (∀ n ∈ p.nodes, n.Fits ctx) →
      p.Anchored V index → ((p.resolved ctx owner).declarations.map (·.1)) = p.claims ctx owner
  | owner, scalar info value, ⟨method, found⟩, _, _ => by
    simp [resolved, declarations, Library.setterBinding, found, claims, storedName?]
  | owner, list _ _, _, _, _ | owner, reference _ _, _, _, _ => rfl
  | owner, nested info node properties, ⟨type, known, unambiguous, obtained⟩, below,
    ⟨_, parent, inside⟩ => by
    rw [nodes, List.forall_mem_cons] at below
    obtain ⟨⟨type', known', fits⟩, below⟩ := below
    obtain rfl : type = type' := Option.some.inj (known.symm.trans known')
    -- A field is declared for a node with a constructor, and a name claimed for one not handed out.
    rw [resolved_nested known, claims_nested known, declarations, List.map_append,
      namesAll_resolvedAll fits below inside]
    rcases (Library.nodeBinding_cases unambiguous obtained).2 with ⟨handed, method, binding⟩ |
      ⟨kept, constructor, binding⟩
    · simp [NodeInfo.declaration, parent, binding, handed]
    · simp [NodeInfo.declaration, parent, binding, kept]

theorem namesAll_resolvedAll {V : ε → Prop} {index : Nat} :
    ∀ {owner : StaticType} {ps : List (Property ε)}, (∀ p ∈ ps, p.Fits ctx owner) →
      (∀ n ∈ nodesAll ps, n.Fits ctx) → AnchoredAll V index ps →
      ((declarationsAll (resolvedAll ctx owner ps)).map (·.1)) = claimsAll ctx owner ps
  | _, [], _, _, _ => rfl
  | owner, p :: rest, fits, below, ⟨head, tail⟩ => by
    rw [List.forall_mem_cons] at fits
    rw [nodesAll, List.forall_mem_append] at below
    rw [resolvedAll, declarationsAll, List.map_append, names_resolved fits.1 below.1 head,
      namesAll_resolvedAll fits.2 below.2 tail, claimsAll]

end

theorem passes_adapted {W : ε → Prop} {owner : StaticType} {name : String} {e : ε} {method : Method}
    (holds : W e) (found : ctx.library.resolveMethod owner name [Expression.type e] = .ok method) :
    ctx.library.Passes W owner name method (ctx.library.adapted owner name e) :=
  ⟨e, holds, found, by simp [Library.adapted, found]⟩

/-- Every item of a list is passed to the adder that accepts it. -/
theorem forall₂_itemMethods {W : ε → Prop} {owner : StaticType} {key : String} {items : List ε}
    (holds : ∀ e ∈ items, W e)
    (fits : ∀ e ∈ items, ∃ method,
      ctx.library.resolveMethod owner (Naming.adder key) [Expression.type e] = .ok method) :
    ∃ methods : List Method, ctx.library.itemMethods owner key items = methods.map some ∧
      List.Forall₂ (ctx.library.Passes W owner (Naming.adder key)) methods
        (items.map (ctx.library.adapted owner (Naming.adder key))) := by
  induction items with
  | nil => exact ⟨[], rfl, .nil⟩
  | cons e rest ih =>
    rw [List.forall_mem_cons] at holds fits
    obtain ⟨method, found⟩ := fits.1
    obtain ⟨methods, listed, passed⟩ := ih holds.2 fits.2
    refine ⟨method :: methods, ?_, .cons (passes_adapted holds.1 found) passed⟩
    simpa [Library.itemMethods, found, Except.toOption] using listed

mutual

theorem bound_resolved {V W : ε → Prop} (prepared : ∀ e, V e → W (ctx.prepare e)) {index : Nat} :
    ∀ {owner : StaticType} {p : Property ε}, p.Fits ctx owner → (∀ n ∈ p.nodes, n.Fits ctx) →
      p.Anchored V index → (p.resolved ctx owner).Bound ctx.library W index owner
  | owner, scalar info value, ⟨method, found⟩, _, holds => by
    refine ⟨method, ?_, passes_adapted (prepared value holds) found⟩
    simp [Library.setterBinding, found]
  | owner, list info items, fits, _, holds => by
    have values : ∀ e ∈ items.map ctx.prepare, W e := by
      intro e member
      obtain ⟨item, inside, rfl⟩ := List.mem_map.mp member
      exact prepared item (holds item inside)
    have accepted : ∀ e ∈ items.map ctx.prepare, ∃ method,
        ctx.library.resolveMethod owner (Naming.adder info.key) [Expression.type e] =
          .ok method := by
      intro e member
      obtain ⟨item, inside, rfl⟩ := List.mem_map.mp member
      exact fits item inside
    obtain ⟨methods, listed, passed⟩ := forall₂_itemMethods values accepted
    exact ⟨methods, congrArg _ listed, passed⟩
  | owner, nested info node properties, ⟨type, known, unambiguous, obtained⟩, below,
      ⟨unbound, parent, inside⟩ => by
    rw [nodes, List.forall_mem_cons] at below
    obtain ⟨⟨type', known', fits⟩, below⟩ := below
    obtain rfl : type = type' := Option.some.inj (known.symm.trans known')
    rw [resolved_nested known]
    exact ⟨unbound, parent, type, rfl, (Library.nodeBinding_cases unambiguous obtained).1,
      boundAll_resolvedAll prepared fits below inside⟩
  | owner, reference _ _, _, _, unbound => unbound

/-- The properties of an acceptable tree are bound by its resolution. -/
theorem boundAll_resolvedAll {V W : ε → Prop} (prepared : ∀ e, V e → W (ctx.prepare e))
    {index : Nat} :
    ∀ {owner : StaticType} {ps : List (Property ε)}, (∀ p ∈ ps, p.Fits ctx owner) →
      (∀ n ∈ nodesAll ps, n.Fits ctx) → AnchoredAll V index ps →
      BoundAll ctx.library W index owner (resolvedAll ctx owner ps)
  | _, [], _, _, _ => trivial
  | owner, p :: rest, fits, below, ⟨head, tail⟩ => by
    rw [List.forall_mem_cons] at fits
    rw [nodesAll, List.forall_mem_append] at below
    exact ⟨bound_resolved prepared fits.1 below.1 head,
      boundAll_resolvedAll prepared fits.2 below.2 tail⟩

end

end Property

/-- A field is declared in place of every name that is claimed. -/
theorem Tree.Acceptable.names_resolved {V : ε → Prop} {t : Tree ε} {type : StaticType}
    (h : t.Acceptable ctx) (built : t.WellFormed V)
    (known : ctx.resolveComponent t.root.info.name = some type) :
    (t.resolved ctx).declarations.map (·.1) =
      t.root.info.qualifiedName :: Property.claimsAll ctx type t.root.properties := by
  obtain ⟨-, fits, below, -, -⟩ := (Tree.acceptable_iff known).mp h
  simp only [resolved, known, declarations, NodeInfo.declaration, built.parent_root,
    List.singleton_append, List.map_cons, Property.namesAll_resolvedAll fits below built.anchored]

/-- Resolution makes a bound tree of an acceptable one. -/
theorem Tree.Acceptable.bound_resolved {V W : ε → Prop} {t : Tree ε} (h : t.Acceptable ctx)
    (built : t.WellFormed V) (prepared : ∀ e, V e → W (ctx.prepare e)) :
    (t.resolved ctx).Bound ctx.library W := by
  obtain ⟨type, constructor, known, found⟩ := h.creatable
  obtain ⟨-, fits, below, distinct, free⟩ := (Tree.acceptable_iff known).mp h
  have names := h.names_resolved built known
  have root : t.resolved ctx = ⟨{ t.root.info with
      type := some type, binding := .constructor constructor },
      Property.resolvedAll ctx type t.root.properties⟩ := by
    simp [resolved, known, Library.constructedBinding, found]
  rw [root] at names ⊢
  refine ⟨built.parent_root, ⟨type, constructor, rfl, rfl, found, ?_⟩, ?_, ?_⟩
  · exact Property.boundAll_resolvedAll prepared fits below built.anchored
  · simpa only [Node.indices, Property.indicesAll_resolvedAll] using built.nodup_indices
  · rw [names, List.nodup_cons]
    exact ⟨fun member => free _ member (List.mem_singleton_self _), distinct⟩

/-! ### Literals -/

/-- The literal has the type it was written with, in a library with the given type of strings. -/
def LiteralExpr.IsWritten (stringType : StaticType) (e : LiteralExpr) : Prop :=
  e.type = e.value.typeIn stringType

theorem Context.isWritten_prepare {e : LiteralExpr} (natural : e.IsNatural) :
    (ctx.prepare e).IsWritten ctx.library.stringType := by
  obtain ⟨value, span, type⟩ := e
  cases value with
  | string _ => rfl
  | bool _ | char _ | int _ | long _ | float _ | double _ | null => exact natural

/-- A literal as it is written takes a type that it can take where it is passed. -/
theorem LiteralExpr.IsWritten.takes_adaptArgument {stringType : StaticType} {e : LiteralExpr}
    (written : e.IsWritten stringType) (method : Method) :
    (method.adaptArgument e).value.Takes stringType (method.adaptArgument e).type := by
  have takes : e.value.Takes stringType e.type := written ▸ e.value.takes_typeIn stringType
  unfold Method.adaptArgument
  split
  · rename_i param _
    have adapted := takes_adapt takes param
    rw [← value_adapt param e] at adapted
    exact adapted
  · exact takes

/-- A tree of literals is bound by a resolution that reports nothing. -/
theorem Tree.bound_of_resolve {t : Tree LiteralExpr} (fresh : t.IsFresh)
    (silent : (ctx.resolve t).2 = .ok []) :
    (ctx.resolve t).1.Bound ctx.library (LiteralExpr.IsWritten ctx.library.stringType) := by
  have acceptable := Context.acceptable_of_resolve silent
  rw [Context.resolve_eq_of_acceptable acceptable]
  exact acceptable.bound_resolved fresh.wellFormed fun _ => Context.isWritten_prepare

end Componentry
