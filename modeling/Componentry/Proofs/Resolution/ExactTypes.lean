import Componentry.Proofs.Typing.Soundness
import Mathlib.Logic.Relation

/-!
# Which nodes take types

A failure is handed down a tree while its nodes are looked up. Here the outcome is said without the
visit: a node takes the type that is found for it exactly if the classes of all its ancestors are
known as well, the owners being those that the nodes themselves name.

## Main definitions

* `Tree.IsOwner`, `Tree.IsAncestor` — who owns a node, directly and through others
* `Tree.AncestorsKnown` — the classes of all ancestors of a node are known
* `Tree.TypedAs` — what becomes of a node when types are assigned
* `Typing.Counts` — the counts grow by the nodes that were visited

## Main results

* `Tree.ancestorsKnown_iff` — the ancestors of a node are its owner and the ancestors of its owner
* `Property.typedAs_typedAll`, `Property.counts_assignTypesAll` — one visit of properties
* `Context.assignTypes_exact` — types, reports, counts and the types of strings
-/

namespace Componentry

variable {ε : Type}

/-! ### Ancestors -/

namespace Tree

/-- The node names `owner`, which is in the tree, as its owner. -/
def IsOwner (t : Tree ε) (owner n : Node ε) : Prop :=
  owner ∈ t.nodes ∧ n.info.parent = some owner.info.index

/-- The first node is the owner of the second, or the owner of its owner, and so on. -/
def IsAncestor (t : Tree ε) : Node ε → Node ε → Prop := Relation.TransGen t.IsOwner

/-- The classes of all ancestors of the node are known. -/
def AncestorsKnown (ctx : Context) (t : Tree ε) (n : Node ε) : Prop :=
  ∀ above, t.IsAncestor above n → ∃ type, ctx.resolveComponent above.info.name = some type

variable {ctx : Context} {t : Tree ε}

/-- A node has one owner, since nodes have different numbers. -/
theorem IsOwner.unique (distinct : t.preorder.Nodup) {owner other n : Node ε}
    (h : t.IsOwner owner n) (h' : t.IsOwner other n) : owner = other := by
  apply List.inj_on_of_nodup_map distinct h.1 h'.1
  exact Option.some.inj (h.2.symm.trans h'.2)

/-- The ancestors of a node are its owner and the ancestors of its owner. -/
theorem ancestorsKnown_iff (distinct : t.preorder.Nodup) {owner n : Node ε}
    (h : t.IsOwner owner n) :
    t.AncestorsKnown ctx n ↔ owner.info.isUnknown ctx = false ∧ t.AncestorsKnown ctx owner := by
  have owner_known : owner.info.isUnknown ctx = false ↔
      ∃ type, ctx.resolveComponent owner.info.name = some type := by
    simp [NodeInfo.isUnknown, Option.isSome_iff_exists]
  rw [owner_known]
  refine ⟨fun known => ⟨known owner (.single h), fun above chain => known above (chain.tail h)⟩, ?_⟩
  rintro ⟨here, further⟩ above chain
  obtain ⟨last, upward, owns⟩ := Relation.TransGen.tail'_iff.mp chain
  obtain rfl := owns.unique distinct h
  rcases Relation.reflTransGen_iff_eq_or_transGen.mp upward with rfl | upward
  · exact here
  · exact further above upward

/-- A node that names no owner has no ancestors. -/
theorem ancestorsKnown_of_parent {n : Node ε} (top : n.info.parent = none) :
    t.AncestorsKnown ctx n := by
  intro above chain
  obtain ⟨last, -, -, owned⟩ := Relation.TransGen.tail'_iff.mp chain
  rw [top] at owned
  cases owned

/-- What becomes of a node of the tree when types are assigned: nothing but its type is changed, and
it has one exactly if its class and those of its ancestors are known. -/
structure TypedAs (ctx : Context) (t : Tree ε) (before after : Node ε) : Prop where
  info_eq : after.info = { before.info with type := after.info.type }
  type_iff : ∀ type, after.info.type = some type ↔
    ctx.resolveComponent before.info.name = some type ∧ t.AncestorsKnown ctx before

end Tree

/-! ### The visit -/

namespace NodeInfo

variable {ctx : Context} {node : NodeInfo}

/-- A node without a type takes the one that is found for it, unless an owner failed. -/
theorem type_typed_eq_some_iff (untyped : node.type = none) (failed : Bool) (type : StaticType) :
    (node.typed ctx failed).type = some type ↔
      ctx.resolveComponent node.name = some type ∧ failed = false := by
  cases known : ctx.resolveComponent node.name with
  | none => simp [typed, known, untyped]
  | some found => cases failed <;> simp [typed, known, untyped]

end NodeInfo

/-- Between two states of a visit that assigns types, the given nodes were met; they are counted as
they are afterwards. -/
structure Typing.Counts (s s' : Typing) (nodes : List (Node ε)) : Prop where
  total : s'.resolved + s'.unresolved = s.resolved + s.unresolved + nodes.length
  resolved : s'.resolved = s.resolved + nodes.countP (·.info.type.isSome)

namespace Typing.Counts

theorem nil (s : Typing) : s.Counts s ([] : List (Node ε)) := ⟨rfl, rfl⟩

theorem append {s₁ s₂ s₃ : Typing} {ns ms : List (Node ε)} (first : s₁.Counts s₂ ns)
    (second : s₂.Counts s₃ ms) : s₁.Counts s₃ (ns ++ ms) := by
  refine ⟨?_, ?_⟩
  · rw [second.total, first.total, List.length_append, Nat.add_assoc]
  · rw [second.resolved, first.resolved, List.countP_append, Nat.add_assoc]

/-- The step that looks up one node. -/
theorem assignType {ctx : Context} {node : NodeInfo} (untyped : node.type = none) (failed : Bool)
    (s : Typing) (properties : List (Property ε)) :
    s.Counts (node.assignType ctx failed s).2.2 [⟨node.typed ctx failed, properties⟩] := by
  cases known : ctx.resolveComponent node.name with
  | none =>
    refine ⟨?_, ?_⟩
    · simp only [NodeInfo.assignType, known, List.length_singleton]
      omega
    · simp [NodeInfo.assignType, NodeInfo.typed, known, untyped]
  | some type =>
    cases failed with
    | false =>
      refine ⟨?_, ?_⟩
      · simp only [NodeInfo.assignType, known, Bool.false_eq_true, if_false, List.length_singleton]
        omega
      · simp [NodeInfo.assignType, NodeInfo.typed, known]
    | true =>
      -- A class was found, but the node is counted with those that have no type.
      refine ⟨?_, ?_⟩
      · simp only [NodeInfo.assignType, known, if_true, List.length_singleton]
        omega
      · simp [NodeInfo.assignType, NodeInfo.typed, known, untyped]

end Typing.Counts

namespace Property

variable [Expression ε] {ctx : Context}

section

variable {V : ε → Prop} {t : Tree ε}

-- The flag that is handed down tells of the nodes below `owner` whether their ancestors are known.
-- A node that is met adds itself to the ancestors of those in its properties.
mutual

theorem typedAs_typed (distinct : t.preorder.Nodup) :
    ∀ {owner : Nat} {failed : Bool} {p : Property ε}, p.Anchored V owner → p.Untouched →
      (∀ n ∈ p.nodes, n ∈ t.nodes) →
      (∀ n : Node ε, n.info.parent = some owner → (failed = false ↔ t.AncestorsKnown ctx n)) →
      List.Forall₂ (t.TypedAs ctx) p.nodes (p.typed ctx failed).nodes
  | _, _, scalar _ _, _, _, _, _ | _, _, list _ _, _, _, _, _ | _, _, reference _ _, _, _,
    _, _ => .nil
  | _, failed, nested _ node properties, ⟨_, parent, anchored⟩, ⟨_, ⟨untyped, _⟩, untouched⟩,
    inside, flag => by
    have member : (⟨node, properties⟩ : Node ε) ∈ t.nodes := inside _ List.mem_cons_self
    have here := flag ⟨node, properties⟩ parent
    refine .cons ⟨node.typed_eq ctx failed, fun type => ?_⟩ ?_
    · rw [NodeInfo.type_typed_eq_some_iff untyped, here]
    · refine typedAs_typedAll distinct anchored untouched ?_ fun n owned => ?_
      · exact fun n below => inside n (List.mem_cons_of_mem _ below)
      · rw [Tree.ancestorsKnown_iff distinct ⟨member, owned⟩, Bool.or_eq_false_iff, here, and_comm]

/-- The nodes in properties become typed one by one. -/
theorem typedAs_typedAll (distinct : t.preorder.Nodup) :
    ∀ {owner : Nat} {failed : Bool} {ps : List (Property ε)}, AnchoredAll V owner ps →
      UntouchedAll ps → (∀ n ∈ nodesAll ps, n ∈ t.nodes) →
      (∀ n : Node ε, n.info.parent = some owner → (failed = false ↔ t.AncestorsKnown ctx n)) →
      List.Forall₂ (t.TypedAs ctx) (nodesAll ps) (nodesAll (typedAll ctx failed ps))
  | _, _, [], _, _, _, _ => .nil
  | _, _, p :: rest, ⟨anchored, anchoredRest⟩, ⟨untouched, untouchedRest⟩, inside, flag => by
    apply List.rel_append
    · exact typedAs_typed distinct anchored untouched
        (fun n within => inside n (List.mem_append_left _ within)) flag
    · exact typedAs_typedAll distinct anchoredRest untouchedRest
        (fun n within => inside n (List.mem_append_right _ within)) flag

end

end

mutual

theorem counts_assignTypes : ∀ {p : Property ε} (failed : Bool) (s : Typing), p.Untouched →
    s.Counts (p.assignTypes ctx failed s).2 (p.typed ctx failed).nodes
  | scalar _ _, _, s, _ | list _ _, _, s, _ | reference _ _, _, s, _ => .nil s
  | nested _ node properties, failed, s, ⟨_, ⟨untyped, _⟩, untouched⟩ => by
    have first : s.Counts (node.assignType ctx failed s).2.2 [⟨node.typed ctx failed, _⟩] :=
      .assignType untyped failed s (typedAll ctx (failed || node.isUnknown ctx) properties)
    have below := counts_assignTypesAll (failed || node.isUnknown ctx)
      (node.assignType ctx failed s).2.2 untouched
    simp only [assignTypes, NodeInfo.failed_assignType]
    exact first.append below

/-- Every node in properties is counted once, as one that has a type or as one that has none. -/
theorem counts_assignTypesAll :
    ∀ {ps : List (Property ε)} (failed : Bool) (s : Typing), UntouchedAll ps →
    s.Counts (assignTypesAll ctx failed ps s).2 (nodesAll (typedAll ctx failed ps))
  | [], _, s, _ => .nil s
  | _ :: _, failed, s, ⟨head, tail⟩ =>
    (counts_assignTypes failed s head).append (counts_assignTypesAll failed _ tail)

end

mutual

theorem values_typed : ∀ (failed : Bool) (p : Property ε),
    (p.typed ctx failed).values = p.values.map ctx.prepare
  | _, scalar _ _ | _, list _ _ | _, reference _ _ => rfl
  | failed, nested _ node properties => valuesAll_typedAll (failed || node.isUnknown ctx) properties

/-- Every value in properties is prepared, below a failed node too. -/
theorem valuesAll_typedAll : ∀ (failed : Bool) (ps : List (Property ε)),
    valuesAll (typedAll ctx failed ps) = (valuesAll ps).map ctx.prepare
  | _, [] => rfl
  | failed, p :: rest => by
    rw [typedAll, valuesAll, valuesAll, List.map_append, values_typed failed p,
      valuesAll_typedAll failed rest]

end

end Property

/-! ### Trees -/

namespace Tree

theorem WellFormed.nodup_preorder {V : ε → Prop} {t : Tree ε} (built : t.WellFormed V) :
    t.preorder.Nodup := by
  rw [preorder_eq]
  exact built.nodup_indices

variable [Expression ε]

/-- The nodes of a tree become typed one by one, in pre-order. -/
theorem WellFormed.typedAs_typed {V : ε → Prop} {t : Tree ε} (built : t.WellFormed V)
    (untouched : t.Untouched) (ctx : Context) :
    List.Forall₂ (t.TypedAs ctx) t.nodes (t.typed ctx).nodes := by
  have distinct := built.nodup_preorder
  have top : t.AncestorsKnown ctx t.root := ancestorsKnown_of_parent built.parent_root
  have nodes_eq := t.nodes_eq
  have member : t.root ∈ t.nodes := by
    rw [nodes_eq]
    exact List.mem_cons_self
  rw [nodes_eq, (t.typed ctx).nodes_eq]
  refine .cons ⟨t.root.info.typed_eq ctx false, fun type => ?_⟩ ?_
  · rw [typed, NodeInfo.type_typed_eq_some_iff untouched.root.1]
    exact and_congr_right fun _ => iff_of_true rfl top
  · refine Property.typedAs_typedAll distinct built.anchored untouched.properties ?_ fun n owned =>
      ?_
    · intro n below
      rw [nodes_eq]
      exact List.mem_cons_of_mem _ below
    · rw [ancestorsKnown_iff distinct ⟨member, owned⟩]
      exact (and_iff_left top).symm

/-- The counts of a visit of a whole tree. -/
theorem Untouched.counts_assignTypes {t : Tree ε} (untouched : t.Untouched) (ctx : Context)
    (before : List Diagnostic) :
    Typing.Counts { diagnostics := before } (t.assignTypes ctx before).2 (t.typed ctx).nodes := by
  rw [nodes_eq]
  simp only [assignTypes, NodeInfo.failed_assignType, Bool.false_or]
  exact (Typing.Counts.assignType untouched.root.1 false _ _).append
    (Property.counts_assignTypesAll _ _ untouched.properties)

theorem values_typed (ctx : Context) (t : Tree ε) :
    (t.typed ctx).values = t.values.map ctx.prepare :=
  Property.valuesAll_typedAll _ t.root.properties

end Tree

/-- A prepared literal has the value that it had, and a string has the type of the library's
strings. -/
theorem Context.prepare_literal (ctx : Context) (e : LiteralExpr) :
    (ctx.prepare e).value = e.value ∧
      ∀ text, e.value = .string text → (ctx.prepare e).type = ctx.library.stringType := by
  obtain ⟨value, span, type⟩ := e
  cases value with
  | string _ => exact ⟨rfl, fun _ _ => rfl⟩
  | bool _ | char _ | int _ | long _ | float _ | double _ | null =>
    refine ⟨rfl, fun text is_string => ?_⟩
    cases is_string

/-- Types are assigned exactly. In a tree that was built from literals, a node takes the type that
is found for it if the classes of all its ancestors are known, and otherwise has none. Reports are
added on the nodes whose own class is unknown, in pre-order and once each, whatever was found above
them. All nodes are counted, those with a type apart, and all strings have the type of the library's
strings. -/
theorem Context.assignTypes_exact (ctx : Context) {t : Tree LiteralExpr} (fresh : t.IsFresh)
    (before : List Diagnostic) :
    let typed := (t.assignTypes ctx before).1
    let account := (t.assignTypes ctx before).2
    List.Forall₂ (t.TypedAs ctx) t.nodes typed.nodes ∧
    account.diagnostics = before ++
      (t.nodes.filter fun n => (ctx.resolveComponent n.info.name).isNone).map (fun n =>
        ⟨n.info.span, .unknownComponent n.info.name
          (Naming.lookupName ctx.options.componentInitial n.info.name)⟩) ∧
    account.resolved + account.unresolved = t.size ∧
    account.resolved = typed.nodes.countP (·.info.type.isSome) ∧
    typed.values.map (·.value) = t.values.map (·.value) ∧
    ∀ e ∈ typed.values, ∀ text, e.value = .string text → e.type = ctx.library.stringType := by
  intro typed account
  have typed_eq : typed = t.typed ctx := t.fst_assignTypes ctx before
  have nodes := fresh.wellFormed.typedAs_typed fresh.untouched ctx
  have counts := fresh.untouched.counts_assignTypes ctx before
  rw [typed_eq, t.values_typed ctx]
  refine ⟨nodes, t.diagnostics_assignTypes ctx before, ?_, ?_, ?_, ?_⟩
  · have total : account.resolved + account.unresolved = (t.typed ctx).nodes.length :=
      counts.total.trans (Nat.zero_add _)
    rw [total, ← nodes.length_eq, t.length_nodes]
  · exact counts.resolved.trans (Nat.zero_add _)
  · rw [List.map_map]
    exact List.map_congr_left fun e _ => (ctx.prepare_literal e).1
  · intro e member text is_string
    obtain ⟨original, -, rfl⟩ := List.mem_map.mp member
    obtain ⟨value_eq, string_type⟩ := ctx.prepare_literal original
    exact string_type text (value_eq.symm.trans is_string)

namespace Sample

/-- A window with a lamp in it, which is of no known class. In the lamp is a button with a text, and
a bulb, which is of no known class either. -/
def lit : Tree LiteralExpr :=
  .ofLiterals "window" (line 1)
    [⟨0, "light", line 2, .node "lamp"⟩,
      ⟨1, "switch", line 3, .node "button"⟩,
      ⟨2, "text", line 4, .scalar (.string "on", line 4)⟩,
      ⟨1, "source", line 5, .node "bulb"⟩]

/-- The window has a type, and the button has none, since it is in the lamp. The lamp and the bulb
in it are both reported, after what was reported before. -/
theorem lit_types :
    let before : List Diagnostic := [⟨line 9, .unknownComponent "chair" "JChair"⟩]
    let typed := (lit.assignTypes context before).1
    let account := (lit.assignTypes context before).2
    lit.IsFresh ∧
    typed.nodes.map (·.info.type) = [some (.ofClass "JWindow"), none, none, none] ∧
    account.diagnostics = before ++ [⟨line 2, .unknownComponent "lamp" "JLamp"⟩,
      ⟨line 5, .unknownComponent "bulb" "JBulb"⟩] ∧
    account.resolved = 1 ∧ account.unresolved = 3 ∧
    ∀ e ∈ typed.values, ∀ text, e.value = .string text → e.type = context.library.stringType := by
  intro before typed account
  have fresh : lit.IsFresh := ⟨_, _, _, rfl⟩
  have types : typed.nodes.map (·.info.type) = [some (.ofClass "JWindow"), none, none, none] := by
    decide +kernel
  obtain ⟨-, reports, total, resolved, -, strings⟩ := context.assignTypes_exact fresh before
  have one : account.resolved = 1 := by
    rw [resolved]
    decide +kernel
  have three : account.unresolved = 3 := by
    have all : account.resolved + account.unresolved = 4 := total
    omega
  refine ⟨fresh, types, reports.trans ?_, one, three, strings⟩
  decide +kernel

end Sample

end Componentry
