import Componentry.Proofs.Library.Lookup
import Componentry.Proofs.Resolution.Acceptance
import Componentry.Proofs.Tree.LiteralTypes

/-!
# Resolving twice

The first resolution of a tree changes the types of its literals, so the second one looks methods up
with other arguments. It finds the same methods all the same: a literal either keeps its type, and
then the lookup is the same, or takes that of the parameter, and then the method matches exactly. So
a tree that was resolved is resolved to itself, with the same reports, even if something was
reported or the visit ended with an ambiguous lookup.

## Main definitions

* `Property.mapValues`, `Tree.mapValues` — a change of all values in a tree
* `Library.Replays` — a method that was found for a value is found again after a change of the value

## Main results

* `BindingState.bindScalar_again` and its siblings — a step is taken as before on what it has left
* `Tree.bind_again` — so is the whole visit
* `Registry.replays` — a registry finds methods again
* `Registry.resolve_again` — a tree that was resolved is resolved to itself
-/

namespace Componentry

variable {ε : Type}

/-! ### Changes of values -/

namespace Property

mutual

/-- The property with all values in it changed. -/
def mapValues (g : ε → ε) : Property ε → Property ε
  | scalar info value => scalar info (g value)
  | list info items => list info (items.map g)
  | nested info node properties => nested info node (mapValuesAll g properties)
  | reference info target => reference info target

/-- The properties with all values in them changed. -/
def mapValuesAll (g : ε → ε) : List (Property ε) → List (Property ε)
  | [] => []
  | p :: rest => p.mapValues g :: mapValuesAll g rest

end

mutual

theorem mapValues_id : ∀ p : Property ε, p.mapValues id = p
  | scalar _ _ | reference _ _ => rfl
  | list _ _ => by simp [mapValues]
  | nested _ _ properties => by simp [mapValues, mapValuesAll_id properties]

theorem mapValuesAll_id : ∀ ps : List (Property ε), mapValuesAll id ps = ps
  | [] => rfl
  | p :: rest => by simp [mapValuesAll, mapValues_id p, mapValuesAll_id rest]

end

end Property

/-- The tree with all values in it changed. -/
def Tree.mapValues (g : ε → ε) (t : Tree ε) : Tree ε :=
  ⟨t.root.info, Property.mapValuesAll g t.root.properties⟩

theorem Tree.mapValues_id (t : Tree ε) : t.mapValues id = t := by
  rw [mapValues, Property.mapValuesAll_id]

variable [Expression ε]

/-- A method that was found for a value is found again for what it made of the value, after a change
that leaves the value itself alone; and it makes of it what it made of the value. -/
def Library.Replays (lib : Library) (g : ε → ε) : Prop :=
  ∀ (owner : StaticType) (name : String) (e : ε) (method : Method), g e = e →
    lib.resolveMethod owner name [Expression.type e] = .ok method →
    lib.resolveMethod owner name [Expression.type (g (method.adaptArgument e))] = .ok method ∧
      method.adaptArgument (g (method.adaptArgument e)) = method.adaptArgument e

/-! ### Steps -/

namespace BindingState

variable {lib : Library} {owner : StaticType} {g : ε → ε}

theorem bindScalar_again (replays : lib.Replays g) {value : ε} (fixed : g value = value)
    (info : PropertyInfo) (s : BindingState) :
    s.bindScalar lib owner (s.bindScalar lib owner info value).1
      (g (s.bindScalar lib owner info value).2.1) = s.bindScalar lib owner info value := by
  cases found : lib.lookup owner (Naming.setter info.key) [Expression.type value] with
  | error error => simp only [bindScalar, found, fixed]
  | ok result =>
    cases result with
    | none => simp only [bindScalar, found, fixed]
    | some method =>
      -- The value may have taken another type since, but the same method is found for it.
      obtain ⟨again, same⟩ := replays _ _ _ _ fixed (Library.resolveMethod_of_lookup found)
      rcases claimed : s.claim info.qualifiedName info.span with ⟨free, next⟩
      cases free with
      | false => simp only [bindScalar, found, claimed, fixed]
      | true => simp only [bindScalar, found, claimed, Library.lookup_eq_of_ok again, same]

theorem bindItems_again (replays : lib.Replays g) (key : String) {items : List ε}
    (fixed : items.map g = items) (s : BindingState) :
    bindItems lib owner key ((bindItems lib owner key items s).1.map g) s =
      bindItems lib owner key items s := by
  induction items generalizing s with
  | nil => rfl
  | cons item rest ih =>
    obtain ⟨head, tail⟩ := List.cons.inj fixed
    cases found : lib.lookup owner (Naming.adder key) [Expression.type item] with
    | error error => simp only [bindItems, found, fixed]
    | ok result =>
      cases result with
      | none => simp only [bindItems, found, List.map_cons, head, ih tail]
      | some method =>
        obtain ⟨again, same⟩ := replays _ _ _ _ head (Library.resolveMethod_of_lookup found)
        simp only [bindItems, found, List.map_cons, Library.lookup_eq_of_ok again, same, ih tail]

theorem bindList_again (replays : lib.Replays g) {items : List ε} (fixed : items.map g = items)
    (info : PropertyInfo) (s : BindingState) :
    s.bindList lib owner (s.bindList lib owner info items).1
      ((s.bindList lib owner info items).2.1.map g) = s.bindList lib owner info items := by
  have again : bindItems lib owner info.key ((bindItems lib owner info.key items s).1.map g) s =
      bindItems lib owner info.key items s := bindItems_again replays info.key fixed s
  cases failed : (bindItems lib owner info.key items s).2.2.failure <;>
    simp only [bindList, failed, again]

/-! Binding a node changes nothing but its binding, which is not read. -/

theorem bindNode_again (key : String) (node : NodeInfo) (s : BindingState) :
    s.bindNode lib owner key (s.bindNode lib owner key node).1 = s.bindNode lib owner key node := by
  cases typed : node.type with
  | none => simp only [bindNode, typed]
  | some type =>
    cases found : lib.lookupGetter owner key type with
    | error error => simp only [bindNode, typed, found]
    | ok result =>
      cases result with
      | some method => simp only [bindNode, typed, found]
      | none =>
        have created : ∀ binding, s.bindNode lib owner key { node with binding } =
            s.bindConstructed lib type node := by
          intro binding
          simp only [bindNode, typed, found]
          rw [← typed]
          rfl
        rw [fst_bindNode, created]
        exact (created node.binding).symm

theorem bindRoot_again (node : NodeInfo) (s : BindingState) :
    s.bindRoot lib (s.bindRoot lib node).1 = s.bindRoot lib node := by
  cases typed : node.type with
  | none => simp only [bindRoot, typed]
  | some type =>
    cases found : lib.defaultConstructor type <;> simp only [bindRoot, typed, found]

end BindingState

/-! ### Visits -/

variable {lib : Library} {g : ε → ε}

namespace Property

mutual

theorem bind_again (replays : lib.Replays g) :
    ∀ (owner : Option StaticType) (p : Property ε) (s : BindingState), p.mapValues g = p →
      ((p.bind lib owner s).1.mapValues g).bind lib owner s = p.bind lib owner s
  | none, scalar info value, s, fixed => by
    simp only [bind, fixed]
  | none, list info items, s, fixed => by
    simp only [bind, fixed]
  | owner, reference _ _, s, _ => rfl
  | some type, scalar info value, s, fixed => by
    obtain ⟨-, fixed⟩ := scalar.inj fixed
    simp only [bind, mapValues, BindingState.bindScalar_again replays fixed]
  | some type, list info items, s, fixed => by
    obtain ⟨-, fixed⟩ := list.inj fixed
    simp only [bind, mapValues, BindingState.bindList_again replays fixed]
  | owner, nested info node properties, s, fixed => by
    obtain ⟨-, -, fixed⟩ := nested.inj fixed
    have inside := bindAll_again replays node.type properties s fixed
    rcases visited : bindAll lib node.type properties s with ⟨properties', next⟩
    rw [visited] at inside
    -- The node is bound after its properties, which depend on its type only.
    cases failed : next.failure with
    | some error => simp only [bind, visited, failed, mapValues, inside]
    | none =>
      cases owner with
      | none => simp only [bind, visited, failed, mapValues, inside]
      | some type =>
        have kept : (next.bindNode lib type info.key node).1.type = node.type := by
          rw [BindingState.fst_bindNode]
        simp only [bind, visited, failed, mapValues, kept, inside, BindingState.bindNode_again]

/-- Properties that were bound are bound as before, also after a change of their values that leaves
alone the values they had first. -/
theorem bindAll_again (replays : lib.Replays g) :
    ∀ (owner : Option StaticType) (ps : List (Property ε)) (s : BindingState),
      mapValuesAll g ps = ps →
      bindAll lib owner (mapValuesAll g (bindAll lib owner ps s).1) s = bindAll lib owner ps s
  | _, [], _, _ => rfl
  | owner, p :: rest, s, fixed => by
    obtain ⟨head, tail⟩ := List.cons.inj fixed
    have first := bind_again replays owner p s head
    rcases visited : p.bind lib owner s with ⟨p', next⟩
    rw [visited] at first
    cases failed : next.failure with
    | some error => simp only [bindAll, visited, failed, mapValuesAll, first, tail]
    | none =>
      simp only [bindAll, visited, failed, mapValuesAll, first,
        bindAll_again replays owner rest next tail]

end

end Property

namespace Tree

theorem bind_again (replays : lib.Replays g) {t : Tree ε} (fixed : t.mapValues g = t)
    (before : List Diagnostic) :
    ((t.bind lib before).1.mapValues g).bind lib before = t.bind lib before := by
  have below : Property.mapValuesAll g t.root.properties = t.root.properties :=
    congrArg (·.root.properties) fixed
  simp only [bind, mapValues, BindingState.bindRoot_again,
    Property.bindAll_again replays _ _ _ below]

/-- Binding a tree after it was bound is binding it once, whatever was reported before each time. -/
theorem bind_bind (replays : lib.Replays (id : ε → ε)) (t : Tree ε)
    (first second : List Diagnostic) :
    (t.bind lib first).1.bind lib second = t.bind lib second := by
  have again := bind_again replays t.mapValues_id []
  rw [mapValues_id] at again
  have same : (t.bind lib first).1 = (t.bind lib []).1 := by
    rw [bind_onTop]
  rw [same, bind_onTop lib _ second, again, ← bind_onTop]

end Tree

/-! ### Types once more -/

variable {ctx : Context}

namespace Property

mutual

theorem unknowns_bind :
    ∀ (owner : Option StaticType) (p : Property ε) (s : BindingState),
      Node.unknowns ctx (p.bind lib owner s).1.nodes = Node.unknowns ctx p.nodes
  | none, scalar _ _, _ | some _, scalar _ _, _ | none, list _ _, _ | some _, list _ _, _
  | _, reference _ _, _ => rfl
  | owner, nested info node properties, s => by
    have below := unknowns_bindAll node.type properties s
    simp only [bind]
    split
    · exact Node.unknowns_cons_congr ⟨_, _, BindingState.fst_bindNode info.key node _⟩ below
    · exact Node.unknowns_cons_congr ⟨_, _, rfl⟩ below

/-- Binding changes nothing that is reported on when types are assigned. -/
theorem unknowns_bindAll :
    ∀ (owner : Option StaticType) (ps : List (Property ε)) (s : BindingState),
      Node.unknowns ctx (nodesAll (bindAll lib owner ps s).1) = Node.unknowns ctx (nodesAll ps)
  | _, [], _ => rfl
  | owner, p :: rest, s => by
    have first := unknowns_bind owner p s
    simp only [bindAll]
    split
    · simp only [nodesAll, Node.unknowns_append, first]
    · simp only [nodesAll, Node.unknowns_append, first, unknowns_bindAll owner rest]

end

mutual

theorem typed_typed :
    ∀ (failed : Bool) (p : Property ε),
      (p.typed ctx failed).typed ctx failed = (p.typed ctx failed).mapValues ctx.prepare
  | _, scalar _ _ | _, list _ _ | _, reference _ _ => rfl
  | failed, nested info node properties => by
    simp only [typed, mapValues, NodeInfo.typed_typed, NodeInfo.isUnknown_typed,
      typed_typedAll _ properties]

/-- When types are assigned again, all that changes are the values. -/
theorem typed_typedAll :
    ∀ (failed : Bool) (ps : List (Property ε)),
      typedAll ctx failed (typedAll ctx failed ps) =
        mapValuesAll ctx.prepare (typedAll ctx failed ps)
  | _, [] => rfl
  | failed, p :: rest => by
    simp only [typedAll, mapValuesAll, typed_typed failed p, typed_typedAll failed rest]

end

mutual

theorem typed_bind :
    ∀ (failed : Bool) (owner : Option StaticType) (p : Property ε) (s : BindingState),
      p.typed ctx failed = p.mapValues ctx.prepare →
      (p.bind lib owner s).1.typed ctx failed = (p.bind lib owner s).1.mapValues ctx.prepare
  | _, none, scalar _ _, _, _ | _, some _, scalar _ _, _, _ | _, none, list _ _, _, _
  | _, some _, list _ _, _, _ | _, _, reference _ _, _, _ => rfl
  | failed, owner, nested info node properties, s, settled => by
    obtain ⟨-, here, below⟩ := nested.inj settled
    have inside := typed_bindAll _ node.type properties s below
    simp only [bind]
    split
    · -- Only the binding of the node is new, and its type does not depend on that.
      rw [BindingState.fst_bindNode]
      simp only [typed, mapValues, NodeInfo.typed_withBinding, here]
      exact congrArg _ inside
    · simp only [typed, mapValues, here, inside]

/-- This is so after they were bound as well. -/
theorem typed_bindAll :
    ∀ (failed : Bool) (owner : Option StaticType) (ps : List (Property ε)) (s : BindingState),
      typedAll ctx failed ps = mapValuesAll ctx.prepare ps →
      typedAll ctx failed (bindAll lib owner ps s).1 =
        mapValuesAll ctx.prepare (bindAll lib owner ps s).1
  | _, _, [], _, _ => rfl
  | failed, owner, p :: rest, s, settled => by
    obtain ⟨head, tail⟩ := List.cons.inj settled
    have first := typed_bind failed owner p s head
    simp only [bindAll]
    split
    · simp only [typedAll, mapValuesAll, first, tail]
    · simp only [typedAll, mapValuesAll, first, typed_bindAll failed owner rest _ tail]

end

mutual

theorem mapValues_typed (settles : ∀ e : ε, ctx.prepare (ctx.prepare e) = ctx.prepare e) :
    ∀ (failed : Bool) (p : Property ε),
      (p.typed ctx failed).mapValues ctx.prepare = p.typed ctx failed
  | _, scalar _ value => congrArg _ (settles value)
  | _, list _ items => by
    simp only [typed, mapValues, List.map_map]
    exact congrArg _ (List.map_congr_left fun e _ => settles e)
  | _, reference _ _ => rfl
  | failed, nested info node properties => by
    simp only [typed, mapValues, mapValues_typedAll settles _ properties]

theorem mapValues_typedAll (settles : ∀ e : ε, ctx.prepare (ctx.prepare e) = ctx.prepare e) :
    ∀ (failed : Bool) (ps : List (Property ε)),
      mapValuesAll ctx.prepare (typedAll ctx failed ps) = typedAll ctx failed ps
  | _, [] => rfl
  | failed, p :: rest => by
    simp only [typedAll, mapValuesAll, mapValues_typed settles failed p,
      mapValues_typedAll settles failed rest]

end

end Property

namespace Tree

theorem unknowns_bind (t : Tree ε) (before : List Diagnostic) :
    Node.unknowns ctx (t.bind lib before).1.nodes = Node.unknowns ctx t.nodes := by
  rw [nodes_eq, nodes_eq]
  exact Node.unknowns_cons_congr ⟨_, _, BindingState.fst_bindRoot t.root.info _⟩
    (Property.unknowns_bindAll _ t.root.properties _)

/-- When types are assigned again, all that changes are the values. -/
theorem typed_typed (t : Tree ε) :
    (t.typed ctx).typed ctx = (t.typed ctx).mapValues ctx.prepare := by
  simp only [typed, mapValues, NodeInfo.typed_typed, NodeInfo.isUnknown_typed,
    Property.typed_typedAll]

/-- This is so after the tree was bound as well. -/
theorem typed_bind {t : Tree ε} (settled : t.typed ctx = t.mapValues ctx.prepare)
    (before : List Diagnostic) :
    (t.bind lib before).1.typed ctx = (t.bind lib before).1.mapValues ctx.prepare := by
  have here : t.root.info.typed ctx false = t.root.info := congrArg (·.root.info) settled
  have below : Property.typedAll ctx (t.root.info.isUnknown ctx) t.root.properties =
      Property.mapValuesAll ctx.prepare t.root.properties := congrArg (·.root.properties) settled
  rcases visited : BindingState.bindRoot lib t.root.info { diagnostics := before } with ⟨node, s⟩
  obtain ⟨binding, rfl⟩ : ∃ binding, node = { t.root.info with binding } := by
    have same : (BindingState.bindRoot lib t.root.info { diagnostics := before }).1 = _ :=
      BindingState.fst_bindRoot t.root.info _
    rw [visited] at same
    exact ⟨_, same⟩
  have root :
      ({ t.root.info with binding } : NodeInfo).typed ctx false = { t.root.info with binding } := by
    rw [NodeInfo.typed_withBinding, here]
  simp only [bind, visited, typed, mapValues, root]
  exact congrArg (fun properties => Tree.mk ⟨_, properties⟩) (Property.typed_bindAll _ _ _ s below)

theorem mapValues_typed (settles : ∀ e : ε, ctx.prepare (ctx.prepare e) = ctx.prepare e)
    (t : Tree ε) : (t.typed ctx).mapValues ctx.prepare = t.typed ctx := by
  simp only [typed, mapValues, Property.mapValues_typedAll settles]

end Tree

/-! ### Resolution -/

namespace Context

/-- The visit that binds ends as it did before when types are assigned and the tree is bound
again. -/
theorem binding_again (replays : ctx.library.Replays (ctx.prepare : ε → ε))
    (settles : ∀ e : ε, ctx.prepare (ctx.prepare e) = ctx.prepare e) (t : Tree ε) :
    ctx.binding (ctx.binding t).1 = ctx.binding t := by
  have fixed := t.mapValues_typed settles
  rw [binding_eq ctx (ctx.binding t).1, binding_eq ctx t, Tree.typed_bind t.typed_typed,
    Tree.unknowns_bind, Tree.unknowns_typed, Tree.bind_again replays fixed]

end Context

/-- A registry finds methods again for literals after a change that keeps an adapted literal or
takes it back to what it was. -/
theorem Registry.replays (r : Registry) {g : LiteralExpr → LiteralExpr}
    (keeps : ∀ e target, g e = e → g (e.adapt target) = e.adapt target ∨ g (e.adapt target) = e) :
    r.library.Replays g := by
  intro owner name e method fixed found
  obtain ⟨-, -, -, accepted⟩ := of_resolveMethod found
  obtain ⟨param, params_eq⟩ : ∃ param, method.params = [param] := by
    rcases List.forall₂_cons_left_iff.mp accepted with ⟨param, rest, -, none, params_eq⟩
    rw [List.forall₂_nil_left_iff.mp none] at params_eq
    exact ⟨param, params_eq⟩
  have adapts : ∀ e : LiteralExpr, method.adaptArgument e = e.adapt param := by
    intro e
    rw [Method.adaptArgument, params_eq]
    rfl
  rw [adapts e, adapts]
  rcases keeps e param fixed with kept | undone
  · rw [kept]
    refine ⟨?_, e.adapt_adapt param⟩
    rcases e.type_adapt_eq_or param with same | taken
    · -- The lookup is the one that was made before.
      rw [show Expression.type (e.adapt param) = Expression.type e from same]
      exact found
    · -- The lookup is another one, with the type of the parameter itself.
      rw [show Expression.type (e.adapt param) = param from taken, ← params_eq]
      exact resolveMethod_params found
  · rw [undone]
    exact ⟨found, rfl⟩

/-- **Idempotence.** A tree of literals that was resolved, with or without reports, is resolved to
itself, with the same reports in the same order. To bind it alone changes nothing in it either, is
not ambiguous and counts the same bindings, whatever was reported before. -/
theorem Registry.resolve_again (r : Registry) (options : Options) (t bound : Tree LiteralExpr)
    (reports : List Diagnostic)
    (resolved : Context.resolve ⟨r.library, options⟩ t = (bound, .ok reports)) :
    Context.resolve ⟨r.library, options⟩ bound = (bound, .ok reports) ∧
    ∀ before, (bound.bind r.library before).1 = bound ∧
      (bound.bind r.library before).2.failure = none ∧
      (bound.bind r.library before).2.constructors =
        (Context.binding ⟨r.library, options⟩ t).2.constructors ∧
      (bound.bind r.library before).2.getters = (Context.binding ⟨r.library, options⟩ t).2.getters ∧
      (bound.bind r.library before).2.setters = (Context.binding ⟨r.library, options⟩ t).2.setters ∧
      (bound.bind r.library before).2.adders =
        (Context.binding ⟨r.library, options⟩ t).2.adders := by
  obtain ⟨-, unambiguous⟩ := Context.binding_of_resolve (congrArg Prod.snd resolved)
  obtain rfl : (Context.binding ⟨r.library, options⟩ t).1 = bound := by
    rw [← Context.fst_resolve, resolved]
  constructor
  · have again : Context.binding ⟨r.library, options⟩ (Context.binding ⟨r.library, options⟩ t).1 =
        Context.binding ⟨r.library, options⟩ t :=
      Context.binding_again (r.replays fun _ target fixed =>
        LiteralExpr.withStringType_adapt fixed target)
        (LiteralExpr.withStringType_withStringType r.library.stringType) t
    rw [← resolved, Context.resolve_eq, again, ← Context.resolve_eq]
  · intro before
    -- Apart from the reports, both visits are the one that is made when nothing was reported
    -- before.
    have first := (Context.binding_eq ⟨r.library, options⟩ t).trans (Tree.bind_onTop _ _ _)
    have second : (Context.binding ⟨r.library, options⟩ t).1.bind r.library before =
        (t.typed ⟨r.library, options⟩).bind r.library before := by
      rw [Context.binding_eq]
      exact Tree.bind_bind (r.replays fun _ _ _ => Or.inl rfl) _ _ before
    rw [second, Tree.bind_onTop, first]
    rw [first] at unambiguous
    exact ⟨rfl, unambiguous, rfl, rfl, rfl, rfl⟩

namespace Sample

/-- A class with overloads to which literals are adapted. -/
def gauge : ClassEntry where
  name := .topLevel "JGauge"
  constructors := [[]]
  methods :=
    [⟨"setLevel", [.primitive .long], .void⟩, ⟨"setLevel", [.primitive .double], .void⟩,
      ⟨"setMark", [.ofClass "Icon"], .void⟩, ⟨"addStep", [.primitive .float], .void⟩,
      ⟨"addStep", [.primitive .double], .void⟩]

/-- A gauge on which three things are reported: a level that is set twice, a step that is no number,
and a node of an unknown class. -/
def dial : Tree LiteralExpr :=
  .ofLiterals "gauge" (line 1)
    [⟨0, "level", line 2, .scalar (.int 3, line 2)⟩,
      ⟨0, "mark", line 3, .scalar (.null, line 3)⟩,
      ⟨0, "step", line 4, .list [(.char 'x', line 4), (.bool true, line 5)]⟩,
      ⟨0, "level", line 6, .scalar (.long 4, line 6)⟩,
      ⟨0, "hand", line 7, .node "needle"⟩]

/-- The gauge is resolved to itself, with its three reports; binding it again counts its two
setters. -/
theorem resolve_again_dial :
    ∃ bound reports,
      Context.resolve ⟨(Registry.empty.add gauge).library, {}⟩ dial = (bound, .ok reports) ∧
      reports.length = 3 ∧
      Context.resolve ⟨(Registry.empty.add gauge).library, {}⟩ bound = (bound, .ok reports) ∧
      (bound.bind (Registry.empty.add gauge).library []).1 = bound ∧
      (bound.bind (Registry.empty.add gauge).library []).2.setters = 2 := by
  have three : (Context.resolve ⟨(Registry.empty.add gauge).library, {}⟩ dial).2.toOption.map
      List.length = some 3 := by
    decide +kernel
  have two : (Context.binding ⟨(Registry.empty.add gauge).library, {}⟩ dial).2.setters = 2 := by
    decide +kernel
  cases resolved : Context.resolve ⟨(Registry.empty.add gauge).library, {}⟩ dial with
  | mk bound outcome =>
    rw [resolved] at three
    cases outcome with
    | error failure => cases three
    | ok reports =>
      obtain ⟨again, binds⟩ := Registry.resolve_again _ _ dial bound reports resolved
      obtain ⟨same, -, -, -, setters, -⟩ := binds []
      exact ⟨bound, reports, rfl, Option.some.inj three, again, same, setters.trans two⟩

end Sample

end Componentry
