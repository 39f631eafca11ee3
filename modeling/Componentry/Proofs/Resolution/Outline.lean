import Componentry.Proofs.Resolution.Frame
import Componentry.Proofs.Resolution.Unambiguous

/-!
# Resolution keeps the outline of a tree

Resolution gives nodes types and bindings, binds properties and adapts values. Which nodes there
are, what they are called and where they belong is not changed, whether or not anything is reported.

## Main definitions

* `Node.label` — the number and the name of a node

## Main results

* `Property.AnchoredAll.bindAll` — binding keeps the nodes in their places
* `Tree.WellFormed.resolve`, `Context.labels_resolve` — resolution keeps the nodes and their places
-/

namespace Componentry

variable {ε : Type} [Expression ε] {lib : Library}

/-- The number and the name of a node. -/
def Node.label {ε : Type} (n : Node ε) : Nat × String := (n.info.index, n.info.name)

/-- Shows of a tree which nodes there are, and of the nodes all that resolution does not change. -/
def View.nodesAlone {ε : Type} : View ε Unit where
  node n := { n with type := none, binding := .unbound }
  property p := { p with binding := .unbound }
  value _ := ()

namespace Property

/-! ### Binding -/

mutual

theorem Anchored.bind :
    ∀ {index : Nat} {p : Property ε} (owner : Option StaticType) (s : BindingState),
    p.Anchored (fun _ => True) index → (p.bind lib owner s).1.Anchored (fun _ => True) index
  | _, scalar _ _, none, _, _ | _, scalar _ _, some _, _, _ => trivial
  | _, list _ _, none, _, _ | _, list _ _, some _, _, _ => fun _ _ => trivial
  | _, reference _ _, _, _, unbound => unbound
  | _, nested info node properties, owner, s, ⟨unbound, parent, below⟩ => by
    have inside := AnchoredAll.bindAll node.type s below
    simp only [Property.bind]
    split
    · rw [BindingState.fst_bindNode]
      exact ⟨unbound, parent, inside⟩
    · exact ⟨unbound, parent, inside⟩

/-- Binding keeps nodes where they belong. -/
theorem AnchoredAll.bindAll :
    ∀ {index : Nat} {ps : List (Property ε)} (owner : Option StaticType) (s : BindingState),
      AnchoredAll (fun _ => True) index ps →
      AnchoredAll (fun _ => True) index (Property.bindAll lib owner ps s).1
  | _, [], _, _, _ => trivial
  | _, p :: rest, owner, s, ⟨head, tail⟩ => by
    have first := Anchored.bind owner s head
    simp only [Property.bindAll]
    split
    · -- The visit ended inside the property, and the rest is as it was.
      exact ⟨first, tail⟩
    · exact ⟨first, AnchoredAll.bindAll owner _ tail⟩

end

end Property

/-! ### Resolution -/

namespace Context

/-- The root gets a type and a binding, and its properties are typed and then bound. -/
theorem root_resolve (ctx : Context) (t : Tree ε) :
    ∃ type binding owner s, (ctx.resolve t).1.root =
      ⟨{ t.root.info with type, binding }, (Property.bindAll ctx.library owner
        (Property.typedAll ctx (t.root.info.isUnknown ctx) t.root.properties) s).1⟩ := by
  let start : BindingState := { diagnostics := Node.unknowns ctx t.nodes }
  let visited := start.bindRoot ctx.library (t.root.info.typed ctx false)
  have info_eq : visited.1 =
      { t.root.info with
        type := (t.root.info.typed ctx false).type, binding := visited.1.binding } := by
    rw [BindingState.fst_bindRoot, t.root.info.typed_eq ctx false]
  refine ⟨(t.root.info.typed ctx false).type, visited.1.binding, visited.1.type, visited.2, ?_⟩
  rw [fst_resolve, binding_eq]
  exact congrArg (Node.mk · _) info_eq

/-- Resolution keeps every view that ignores types and bindings. -/
theorem seen_resolve {δ : Type} {v : View ε δ} (types : v.IgnoresTypes)
    (bindings : v.IgnoresBindings) (ctx : Context) (t : Tree ε) :
    (ctx.resolve t).1.seen v = t.seen v := by
  rw [fst_resolve, binding, Tree.seen_bind ctx.library bindings, Tree.seen_assignTypes ctx types]

/-- Resolution keeps the numbers and names of all nodes, in their order. -/
theorem labels_resolve (ctx : Context) (t : Tree ε) :
    (ctx.resolve t).1.nodes.map Node.label = t.nodes.map Node.label := by
  have shown (u : Tree ε) : (u.seen .nodesAlone).nodes.map Node.label = u.nodes.map Node.label := by
    rw [Tree.nodes_seen, List.map_map]
    rfl
  rw [← shown,
    seen_resolve ⟨fun _ _ => rfl, fun _ _ => rfl⟩ ⟨fun _ _ => rfl, fun _ _ => rfl, fun _ _ => rfl⟩,
    shown]

theorem indices_resolve (ctx : Context) (t : Tree ε) :
    (ctx.resolve t).1.root.indices = t.root.indices := by
  have numbers := congrArg (List.map Prod.fst) (ctx.labels_resolve t)
  rw [List.map_map, List.map_map, Tree.nodes_eq, Tree.nodes_eq] at numbers
  rw [← Node.map_index_nodes, ← Node.map_index_nodes]
  exact numbers

@[simp] theorem size_resolve (ctx : Context) (t : Tree ε) : (ctx.resolve t).1.size = t.size := by
  rw [Tree.size, Tree.size, indices_resolve]

end Context

/-- Resolution keeps a tree well formed. -/
theorem Tree.WellFormed.resolve {V : ε → Prop} {t : Tree ε} (built : t.WellFormed V)
    (ctx : Context) : (ctx.resolve t).1.WellFormed (fun _ => True) := by
  obtain ⟨type, binding, owner, s, root_eq⟩ := ctx.root_resolve t
  have typed : Property.AnchoredAll (fun _ => True) t.root.info.index
      (Property.typedAll ctx (t.root.info.isUnknown ctx) t.root.properties) :=
    built.anchored.typedAll (fun _ _ => trivial) _
  refine ⟨?_, ?_, ?_⟩
  · rw [root_eq]
    exact built.parent_root
  · rw [root_eq]
    exact typed.bindAll owner s
  · rw [Context.indices_resolve, Context.size_resolve]
    exact built.numbered

end Componentry
