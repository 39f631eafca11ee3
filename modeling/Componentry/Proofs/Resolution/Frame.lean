import Componentry.Library.Registry
import Componentry.Proofs.Resolution.Steps
import Componentry.Proofs.Resolution.Types
import Componentry.Proofs.Tree.Building
import Componentry.Proofs.Tree.LiteralTypes
import Componentry.Tree.Text

/-!
# What resolution leaves alone

Assigning types and binding go through a tree and change it as they go. Neither changes more than it
owns, wherever the visit stands when it ends: types are assigned to nodes and literals, nodes and
properties are bound, and literals are adapted. All else in the tree is as before, and so is its
text.

What is left alone is said by a view of the tree, which hides the parts that may change. A pass
keeps every view that ignores what the pass owns.

## Main definitions

* `View`, `Property.seen`, `Tree.seen` — a tree of which some parts are hidden
* `View.IgnoresTypes`, `View.IgnoresBindings` — views that hide what the passes change
* `View.outline` — the view that hides types and bindings

## Main results

* `Property.seen_typedAll`, `Property.seen_bindAll` — the passes keep the views that ignore what
  they change
* `Property.textAll_congr` — trees that look the same have the same text
* `Context.passes_keep` — what assigning types and binding keep
-/

namespace Componentry

variable {ε δ : Type}

/-! ### Views -/

/-- What is seen of the nodes, the properties and the values of a tree. -/
structure View (ε δ : Type) where
  node : NodeInfo → NodeInfo
  property : PropertyInfo → PropertyInfo
  value : ε → δ

namespace Property

mutual

/-- The property as it is seen. -/
def seen (v : View ε δ) : Property ε → Property δ
  | scalar info value => scalar (v.property info) (v.value value)
  | list info items => list (v.property info) (items.map v.value)
  | nested info node properties => nested (v.property info) (v.node node) (seenAll v properties)
  | reference info target => reference (v.property info) target

/-- The properties as they are seen. -/
def seenAll (v : View ε δ) : List (Property ε) → List (Property δ)
  | [] => []
  | p :: rest => p.seen v :: seenAll v rest

end

theorem info_seen (v : View ε δ) (p : Property ε) : (p.seen v).info = v.property p.info := by
  cases p <;> simp [seen, info]

theorem map_info_seenAll (v : View ε δ) (ps : List (Property ε)) :
    (seenAll v ps).map info = (ps.map info).map v.property := by
  induction ps with
  | nil => rfl
  | cons p rest ih => simp [seenAll, info_seen, ih]

end Property

/-- The node as it is seen. -/
def Node.seen (v : View ε δ) (n : Node ε) : Node δ :=
  ⟨v.node n.info, Property.seenAll v n.properties⟩

/-- The tree as it is seen. -/
def Tree.seen (v : View ε δ) (t : Tree ε) : Tree δ := ⟨t.root.seen v⟩

namespace Property

mutual

theorem nodes_seen (v : View ε δ) : ∀ p : Property ε, (p.seen v).nodes = p.nodes.map (Node.seen v)
  | scalar _ _ | list _ _ | reference _ _ => rfl
  | nested _ node properties => by
    rw [seen, nodes, nodes, List.map_cons, nodesAll_seenAll v properties, Node.seen]

/-- The nodes in properties, as they are seen. -/
theorem nodesAll_seenAll (v : View ε δ) :
    ∀ ps : List (Property ε), nodesAll (seenAll v ps) = (nodesAll ps).map (Node.seen v)
  | [] => rfl
  | p :: rest => by
    rw [seenAll, nodesAll, nodesAll, List.map_append, nodes_seen v p, nodesAll_seenAll v rest]

end

end Property

namespace Tree

theorem nodes_seen (v : View ε δ) (t : Tree ε) : (t.seen v).nodes = t.nodes.map (Node.seen v) := by
  rw [nodes_eq, nodes_eq, seen, Node.nodes, Node.nodes, List.map_cons, Node.seen,
    Property.nodesAll_seenAll]

/-- A view shows all nodes. -/
theorem size_seen (v : View ε δ) (t : Tree ε) : (t.seen v).size = t.size := by
  rw [← length_nodes, nodes_seen, List.length_map, length_nodes]

/-- The bindings, as they are seen. -/
theorem bindings_seen {v : View ε δ} (nodes : ∀ node, (v.node node).binding = node.binding)
    (properties : ∀ info, (v.property info).binding = info.binding) (t : Tree ε) :
    (t.seen v).bindings = t.bindings := by
  rw [bindings, bindings, nodes_seen, List.map_map]
  apply List.map_congr_left
  intro n _
  have shown : (Property.seenAll v n.properties).map (·.info.binding) =
      n.properties.map (·.info.binding) := by
    calc (Property.seenAll v n.properties).map (·.info.binding)
        = ((Property.seenAll v n.properties).map Property.info).map (·.binding) := by simp
      _ = n.properties.map (·.info.binding) := by
        rw [Property.map_info_seenAll]
        simp [properties]
  simp [Node.seen, nodes, shown]

end Tree

namespace View

variable [Expression ε]

/-- The view hides the types of nodes and of values. -/
structure IgnoresTypes (v : View ε δ) : Prop where
  node : ∀ node type, v.node { node with type } = v.node node
  value : ∀ type e, v.value (Expression.withStringType type e) = v.value e

/-- The view hides the bindings and how values are adapted. -/
structure IgnoresBindings (v : View ε δ) : Prop where
  node : ∀ node binding, v.node { node with binding } = v.node node
  property : ∀ info binding, v.property { info with binding } = v.property info
  value : ∀ type e, v.value (Expression.adapt type e) = v.value e

theorem IgnoresBindings.adaptArgument {v : View ε δ} (h : v.IgnoresBindings)
    (method : Method) (e : ε) : v.value (method.adaptArgument e) = v.value e := by
  unfold Method.adaptArgument
  split
  · exact h.value _ e
  · rfl

end View

/-! ### Types -/

section

variable [Expression ε] {v : View ε δ} (ctx : Context)

theorem NodeInfo.seen_typed (ignores : v.IgnoresTypes) (failed : Bool) (node : NodeInfo) :
    v.node (node.typed ctx failed) = v.node node := by
  rw [typed_eq, ignores.node]

namespace Property

mutual

theorem seen_typed (ignores : v.IgnoresTypes) :
    ∀ (failed : Bool) (p : Property ε), (p.typed ctx failed).seen v = p.seen v
  | _, scalar _ _ => by simp only [typed, seen, ignores.value]
  | _, list _ _ => by simp [typed, seen, ignores.value]
  | _, reference _ _ => rfl
  | failed, nested info node properties => by
    simp only [typed, seen, NodeInfo.seen_typed ctx ignores, seen_typedAll ignores _ properties]

/-- Types are assigned behind a view that ignores them. -/
theorem seen_typedAll (ignores : v.IgnoresTypes) :
    ∀ (failed : Bool) (ps : List (Property ε)), seenAll v (typedAll ctx failed ps) = seenAll v ps
  | _, [] => rfl
  | failed, p :: rest => by
    simp only [typedAll, seenAll, seen_typed ignores failed p, seen_typedAll ignores failed rest]

end

end Property

theorem Tree.seen_assignTypes (ignores : v.IgnoresTypes) (t : Tree ε) (before : List Diagnostic) :
    (t.assignTypes ctx before).1.seen v = t.seen v := by
  rw [fst_assignTypes]
  simp only [seen, typed, Node.seen, NodeInfo.seen_typed ctx ignores,
    Property.seen_typedAll ctx ignores]

end

/-! ### Bindings -/

section

variable [Expression ε] {v : View ε δ} (lib : Library)

namespace BindingState

variable (owner : StaticType)

theorem seen_bindScalar (ignores : v.IgnoresBindings) (info : PropertyInfo) (value : ε)
    (s : BindingState) :
    v.property (s.bindScalar lib owner info value).1 = v.property info ∧
      v.value (s.bindScalar lib owner info value).2.1 = v.value value := by
  unfold bindScalar
  split
  · exact ⟨rfl, rfl⟩
  · exact ⟨ignores.property info _, rfl⟩
  · rename_i method _
    split
    · exact ⟨ignores.property info _, rfl⟩
    · exact ⟨ignores.property info _, ignores.adaptArgument method value⟩

theorem seen_bindItems (ignores : v.IgnoresBindings) (key : String) (items : List ε)
    (s : BindingState) : (bindItems lib owner key items s).1.map v.value = items.map v.value := by
  induction items generalizing s with
  | nil => rfl
  | cons item rest ih =>
    unfold bindItems
    split
    · -- The lookup is ambiguous, and the items from here on are left alone.
      rfl
    · simp [ih]
    · simp [ih, ignores.adaptArgument]

theorem seen_bindList (ignores : v.IgnoresBindings) (info : PropertyInfo) (items : List ε)
    (s : BindingState) :
    v.property (s.bindList lib owner info items).1 = v.property info ∧
      (s.bindList lib owner info items).2.1.map v.value = items.map v.value := by
  have each := seen_bindItems lib owner ignores info.key items s
  simp only [bindList]
  split
  · exact ⟨rfl, each⟩
  · exact ⟨ignores.property info _, each⟩

theorem seen_bindNode (ignores : v.IgnoresBindings) (key : String) (node : NodeInfo)
    (s : BindingState) : v.node (s.bindNode lib owner key node).1 = v.node node := by
  rw [fst_bindNode, ignores.node]

theorem seen_bindRoot (ignores : v.IgnoresBindings) (node : NodeInfo) (s : BindingState) :
    v.node (s.bindRoot lib node).1 = v.node node := by
  rw [fst_bindRoot, ignores.node]

end BindingState

namespace Property

mutual

theorem seen_bind (ignores : v.IgnoresBindings) :
    ∀ (owner : Option StaticType) (p : Property ε) (s : BindingState),
      (p.bind lib owner s).1.seen v = p.seen v
  | none, scalar _ _, _ | none, list _ _, _ | _, reference _ _, _ => rfl
  | some type, scalar info value, s => by
    obtain ⟨property, same⟩ := BindingState.seen_bindScalar lib type ignores info value s
    simp only [bind, seen, property, same]
  | some type, list info items, s => by
    obtain ⟨property, same⟩ := BindingState.seen_bindList lib type ignores info items s
    simp only [bind, seen, property, same]
  | owner, nested info node properties, s => by
    have below := seen_bindAll ignores node.type properties s
    simp only [bind]
    split
    · simp only [seen, BindingState.seen_bindNode lib _ ignores, below]
    · -- The visit ended below, or the owner has no type.
      simp only [seen, below]

/-- Properties are bound behind a view that ignores bindings. -/
theorem seen_bindAll (ignores : v.IgnoresBindings) :
    ∀ (owner : Option StaticType) (ps : List (Property ε)) (s : BindingState),
      seenAll v (bindAll lib owner ps s).1 = seenAll v ps
  | _, [], _ => rfl
  | owner, p :: rest, s => by
    have head := seen_bind ignores owner p s
    simp only [bindAll]
    split
    · -- The visit ended in the first property, and the rest is as it was.
      simp only [seenAll, head]
    · simp only [seenAll, head, seen_bindAll ignores owner rest]

end

end Property

theorem Tree.seen_bind (ignores : v.IgnoresBindings) (t : Tree ε) (before : List Diagnostic) :
    (t.bind lib before).1.seen v = t.seen v := by
  simp only [seen, bind, Node.seen, BindingState.seen_bindRoot lib ignores,
    Property.seen_bindAll lib ignores]

end

/-! ### Text -/

section

variable [Expression ε]

/-- The view shows what the text of a tree is made of. -/
structure View.ShowsText (v : View ε δ) : Prop where
  node : ∀ {n m}, v.node n = v.node m → n.name = m.name
  property : ∀ {p q}, v.property p = v.property q → p.key = q.key
  value : ∀ {d e}, v.value d = v.value e → Expression.text d = Expression.text e

theorem NodeInfo.frame_congr {indent body : String} {n m : NodeInfo} (name : n.name = m.name) :
    n.frame indent body = m.frame indent body := by
  rw [frame, frame, name]

theorem View.ShowsText.map_text {v : View ε δ} (shows : v.ShowsText) {ds es : List ε}
    (same : ds.map v.value = es.map v.value) : ds.map Expression.text = es.map Expression.text := by
  induction ds generalizing es with
  | nil =>
    cases es with
    | nil => rfl
    | cons e es => cases same
  | cons d ds ih =>
    cases es with
    | nil => cases same
    | cons e es =>
      obtain ⟨head, tail⟩ := List.cons.inj same
      rw [List.map_cons, List.map_cons, shows.value head, ih tail]

namespace Property

variable {v : View ε δ}

mutual

theorem text_congr (shows : v.ShowsText) : ∀ {p q : Property ε} (indent : String),
    p.seen v = q.seen v → p.text indent = q.text indent
  | scalar _ _, scalar _ _, _, same => by
    simp only [seen, scalar.injEq] at same
    simp only [text, text.line, shows.property same.1, shows.value same.2]
  | list _ _, list _ _, _, same => by
    simp only [seen, list.injEq] at same
    simp only [text, text.line, shows.property same.1, shows.map_text same.2]
  | nested _ _ properties, nested _ _ properties', indent, same => by
    simp only [seen, nested.injEq] at same
    simp only [text, text.line, shows.property same.1, NodeInfo.frame_congr (shows.node same.2.1),
      textAll_congr shows (indent ++ "\t") same.2.2]
  | reference _ _, reference _ _, _, same => by
    simp only [seen, reference.injEq] at same
    simp only [text, text.line, shows.property same.1, same.2]
  | scalar _ _, list _ _, _, same | scalar _ _, nested _ _ _, _, same
  | scalar _ _, reference _ _, _, same | list _ _, scalar _ _, _, same
  | list _ _, nested _ _ _, _, same | list _ _, reference _ _, _, same
  | nested _ _ _, scalar _ _, _, same | nested _ _ _, list _ _, _, same
  | nested _ _ _, reference _ _, _, same | reference _ _, scalar _ _, _, same
  | reference _ _, list _ _, _, same | reference _ _, nested _ _ _, _, same => by
    simp [seen] at same

/-- Properties that look the same have the same text. -/
theorem textAll_congr (shows : v.ShowsText) : ∀ {ps qs : List (Property ε)} (indent : String),
    seenAll v ps = seenAll v qs → textAll indent ps = textAll indent qs
  | [], [], _, _ => rfl
  | p :: ps, q :: qs, indent, same => by
    simp only [seenAll, List.cons.injEq] at same
    rw [textAll, textAll, text_congr shows indent same.1, textAll_congr shows indent same.2]
  | [], _ :: _, _, same | _ :: _, [], _, same => by simp [seenAll] at same

end

end Property

/-- Trees that look the same have the same text. -/
theorem Tree.text_congr {v : View ε δ} (shows : v.ShowsText) {t u : Tree ε}
    (same : t.seen v = u.seen v) : t.text = u.text := by
  have root : t.root.seen v = u.root.seen v := congrArg Tree.root same
  obtain ⟨info, properties⟩ := Node.mk.inj root
  rw [text, text, NodeInfo.frame_congr (shows.node info),
    Property.textAll_congr shows "\t" properties]

end

/-! ### Trees of literals -/

namespace View

/-- Hides the types of nodes and of literals. -/
def withoutTypes : View LiteralExpr (Literal × Span) where
  node n := { n with type := none }
  property p := p
  value e := (e.value, e.span)

/-- Hides the bindings, and the types of literals. -/
def withoutBindings : View LiteralExpr (Literal × Span) where
  node n := { n with binding := .unbound }
  property p := { p with binding := .unbound }
  value e := (e.value, e.span)

/-- Hides types and bindings. All that is shown was there when the tree was built. -/
def outline : View LiteralExpr (Literal × Span) where
  node n := { n with type := none, binding := .unbound }
  property p := { p with binding := .unbound }
  value e := (e.value, e.span)

theorem written_withStringType (type : StaticType) (e : LiteralExpr) :
    ((Expression.withStringType type e).value, (Expression.withStringType type e).span) =
      (e.value, e.span) := by
  obtain ⟨value, span, _⟩ := e
  cases value <;> rfl

theorem written_adapt (type : StaticType) (e : LiteralExpr) :
    ((Expression.adapt type e).value, (Expression.adapt type e).span) = (e.value, e.span) := by
  change ((e.adapt type).value, (e.adapt type).span) = (e.value, e.span)
  rw [LiteralExpr.adapt_eq]

theorem ignoresTypes_withoutTypes : withoutTypes.IgnoresTypes :=
  ⟨fun _ _ => rfl, written_withStringType⟩

theorem ignoresTypes_outline : outline.IgnoresTypes := ⟨fun _ _ => rfl, written_withStringType⟩

theorem ignoresBindings_withoutBindings : withoutBindings.IgnoresBindings :=
  ⟨fun _ _ => rfl, fun _ _ => rfl, written_adapt⟩

theorem ignoresBindings_outline : outline.IgnoresBindings :=
  ⟨fun _ _ => rfl, fun _ _ => rfl, written_adapt⟩

theorem showsText_outline : outline.ShowsText where
  node same := by
    have name := congrArg NodeInfo.name same
    exact name
  property same := by
    have key := congrArg PropertyInfo.key same
    exact key
  value same := congrArg (fun written => Literal.text written.1) same

end View

/-- **What resolution leaves alone.** Let types be assigned in any tree of literals, or let it be
bound, with any reports given before, and even if a lookup is ambiguous. All nodes and properties
stay what and where they are, apart from types and bindings, and all literals have the values they
had; so the text of the tree is the same. Assigning types changes no binding, and binding changes
the type of no node. Both add to the reports. -/
theorem Context.passes_keep (ctx : Context) (t : Tree LiteralExpr) (before : List Diagnostic) :
    let typed := t.assignTypes ctx before
    let bound := t.bind ctx.library before
    (∀ after ∈ [typed.1, bound.1],
      after.seen .outline = t.seen .outline ∧ after.size = t.size ∧ after.text = t.text) ∧
    typed.1.bindings = t.bindings ∧
    bound.1.nodes.map (·.info.type) = t.nodes.map (·.info.type) ∧
    before <+: typed.2.diagnostics ∧ before <+: bound.2.diagnostics := by
  intro typed bound
  refine ⟨?_, ?_, ?_, ?_, t.prefix_bind ctx.library before⟩
  · have same : ∀ after ∈ [typed.1, bound.1], after.seen .outline = t.seen .outline := by
      simp only [List.forall_mem_cons, List.not_mem_nil, false_implies, implies_true, and_true]
      exact ⟨Tree.seen_assignTypes ctx View.ignoresTypes_outline t before,
        Tree.seen_bind ctx.library View.ignoresBindings_outline t before⟩
    intro after member
    have outline := same after member
    refine ⟨outline, ?_, Tree.text_congr View.showsText_outline outline⟩
    rw [← after.size_seen .outline, outline, Tree.size_seen]
  · have kept := Tree.seen_assignTypes ctx View.ignoresTypes_withoutTypes t before
    have shown (u : Tree LiteralExpr) : (u.seen .withoutTypes).bindings = u.bindings :=
      u.bindings_seen (fun _ => rfl) (fun _ => rfl)
    rw [← shown typed.1, kept, shown]
  · have kept := Tree.seen_bind ctx.library View.ignoresBindings_withoutBindings t before
    have shown (u : Tree LiteralExpr) :
        (u.seen .withoutBindings).nodes.map (·.info.type) = u.nodes.map (·.info.type) := by
      rw [Tree.nodes_seen, List.map_map]
      rfl
    rw [← shown bound.1, kept, shown]
  · rw [Tree.diagnostics_assignTypes]
    exact List.prefix_append _ _

namespace Sample

/-- A class with a size and two ways to set a target. -/
def link : ClassEntry where
  name := .topLevel "JLink"
  constructors := [[]]
  methods :=
    [⟨"setSize", [.primitive .long], .void⟩, ⟨"setTarget", [.ofClass "Page"], .void⟩,
      ⟨"setTarget", [.ofClass "File"], .void⟩]

/-- A link without a target, which may be set in both ways. -/
def linkTree : Tree LiteralExpr :=
  .ofLiterals "link" default
    [⟨0, "size", default, .scalar (.int 1, default)⟩,
      ⟨0, "target", default, .scalar (.null, default)⟩]

-- The visit ends at the target, after the size was bound.
example :
    let ctx : Context := ⟨(Registry.empty.add link).library, {}⟩
    let typed := (linkTree.assignTypes ctx []).1
    let bound := typed.bind ctx.library []
    bound.2.failure.isSome = true ∧ bound.1.bindings ≠ typed.bindings ∧
      bound.1.text = linkTree.text := by
  decide +kernel

end Sample

end Componentry
