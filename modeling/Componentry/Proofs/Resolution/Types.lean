import Componentry.Proofs.Tree.Preorder
import Componentry.Tree.Typing

/-!
# Types of nodes, without a state

Assigning types goes through a tree with a state of reports and counts. Its two outcomes are given
here by themselves: the tree with types does not depend on the state, and what is reported are the
nodes whose own class is unknown, in pre-order.

## Main definitions

* `Property.typed`, `Tree.typed` — the tree after types have been assigned
* `Node.unknowns` — the reports on a list of nodes

## Main results

* `Tree.fst_assignTypes`, `Tree.diagnostics_assignTypes` — the two outcomes
* `Node.unknowns_eq_nil_iff` — nothing is reported exactly when all classes are known
-/

namespace Componentry

/-- The class of the node is unknown. -/
def NodeInfo.isUnknown (ctx : Context) (node : NodeInfo) : Bool :=
  (ctx.resolveComponent node.name).isNone

/-- The node with the type that it takes, unless an owner `failed`. -/
def NodeInfo.typed (ctx : Context) (failed : Bool) (node : NodeInfo) : NodeInfo :=
  match ctx.resolveComponent node.name with
  | some type => if failed then node else { node with type := some type }
  | none => node

namespace Node

variable {ε : Type}

/-- The reports on those of the nodes whose class is unknown. -/
def unknowns (ctx : Context) (nodes : List (Node ε)) : List Diagnostic :=
  (nodes.filter (·.info.isUnknown ctx)).map (·.info.unknownComponent ctx)

@[simp] theorem unknowns_nil (ctx : Context) : unknowns ctx ([] : List (Node ε)) = [] := rfl

@[simp] theorem unknowns_append (ctx : Context) (ns ms : List (Node ε)) :
    unknowns ctx (ns ++ ms) = unknowns ctx ns ++ unknowns ctx ms := by
  simp [unknowns]

/-- Nothing is reported exactly when the classes of all nodes are known. -/
theorem unknowns_eq_nil_iff (ctx : Context) (nodes : List (Node ε)) :
    unknowns ctx nodes = [] ↔
    ∀ n ∈ nodes, ∃ type, ctx.resolveComponent n.info.name = some type := by
  simp [unknowns, NodeInfo.isUnknown, Option.ne_none_iff_exists']

/-- What is reported on a node does not depend on its type and its binding. -/
theorem unknowns_cons_congr {ctx : Context} {n m : Node ε} {ns ms : List (Node ε)}
    (same : ∃ type binding, n.info = { m.info with type, binding })
    (rest : unknowns ctx ns = unknowns ctx ms) :
    unknowns ctx (n :: ns) = unknowns ctx (m :: ms) := by
  obtain ⟨type, binding, same⟩ := same
  have unknown : n.info.isUnknown ctx = m.info.isUnknown ctx := by
    rw [same]
    rfl
  have report : n.info.unknownComponent ctx = m.info.unknownComponent ctx := by
    rw [same]
    rfl
  unfold unknowns at rest ⊢
  rw [List.filter_cons, List.filter_cons, unknown]
  split
  · rw [List.map_cons, List.map_cons, report, rest]
  · exact rest

end Node

namespace NodeInfo

variable (ctx : Context) (failed : Bool) (node : NodeInfo) (s : Typing)

/-- Assigning a type to a node changes nothing but its type. -/
theorem typed_eq : node.typed ctx failed = { node with type := (node.typed ctx failed).type } := by
  unfold typed
  split
  · split <;> rfl
  · rfl

theorem typed_typed : (node.typed ctx failed).typed ctx failed = node.typed ctx failed := by
  cases known : ctx.resolveComponent node.name with
  | none => simp only [typed, known]
  | some type => cases failed <;> simp [typed, known]

theorem isUnknown_typed : (node.typed ctx failed).isUnknown ctx = node.isUnknown ctx := by
  rw [typed_eq]
  rfl

theorem typed_withBinding (binding : NodeBinding) :
    ({ node with binding } : NodeInfo).typed ctx failed =
      { node.typed ctx failed with binding := binding } := by
  simp only [typed]
  split
  · split <;> rfl
  · rfl

theorem fst_assignType : (node.assignType ctx failed s).1 = node.typed ctx failed := by
  cases known : ctx.resolveComponent node.name with
  | none => simp [assignType, typed, known]
  | some type => cases failed <;> simp [assignType, typed, known]

/-- A node fails with its owner, or because its own class is unknown. -/
theorem failed_assignType :
    (node.assignType ctx failed s).2.1 = (failed || node.isUnknown ctx) := by
  cases known : ctx.resolveComponent node.name with
  | none => simp [assignType, isUnknown, known]
  | some type => cases failed <;> simp [assignType, isUnknown, known]

theorem diagnostics_assignType {ε : Type} (properties : List (Property ε)) :
    (node.assignType ctx failed s).2.2.diagnostics =
      s.diagnostics ++ Node.unknowns ctx [⟨node, properties⟩] := by
  cases known : ctx.resolveComponent node.name with
  | none => simp [assignType, Node.unknowns, isUnknown, known]
  | some type => cases failed <;> simp [assignType, Node.unknowns, isUnknown, known]

end NodeInfo

variable {ε : Type} [Expression ε]

namespace Property

mutual

/-- The property after types have been assigned in it; `failed` tells that the owner has none. -/
def typed (ctx : Context) (failed : Bool) : Property ε → Property ε
  | scalar info value => scalar info (Expression.withStringType ctx.library.stringType value)
  | list info items => list info (items.map (Expression.withStringType ctx.library.stringType))
  | nested info node properties =>
    nested info (node.typed ctx failed) (typedAll ctx (failed || node.isUnknown ctx) properties)
  | reference info target => reference info target

/-- The properties after types have been assigned in them. -/
def typedAll (ctx : Context) (failed : Bool) : List (Property ε) → List (Property ε)
  | [] => []
  | p :: rest => p.typed ctx failed :: typedAll ctx failed rest

end

mutual

theorem fst_assignTypes (ctx : Context) :
    ∀ (failed : Bool) (p : Property ε) (s : Typing),
      (p.assignTypes ctx failed s).1 = p.typed ctx failed
  | _, scalar _ _, _ | _, list _ _, _ | _, reference _ _, _ => rfl
  | failed, nested info node properties, s => by
    simp only [assignTypes, typed, NodeInfo.fst_assignType, NodeInfo.failed_assignType,
      fst_assignTypesAll ctx]

/-- The properties with types do not depend on what was met before. -/
theorem fst_assignTypesAll (ctx : Context) :
    ∀ (failed : Bool) (ps : List (Property ε)) (s : Typing),
      (assignTypesAll ctx failed ps s).1 = typedAll ctx failed ps
  | _, [], _ => rfl
  | failed, p :: rest, s => by
    simp only [assignTypesAll, typedAll, fst_assignTypes ctx, fst_assignTypesAll ctx]

end

mutual

theorem diagnostics_assignTypes (ctx : Context) :
    ∀ (failed : Bool) (p : Property ε) (s : Typing),
      (p.assignTypes ctx failed s).2.diagnostics = s.diagnostics ++ Node.unknowns ctx p.nodes
  | _, scalar _ _, _ | _, list _ _, _ | _, reference _ _, _ => by simp [assignTypes, nodes]
  | failed, nested info node properties, s => by
    have split_nodes : nodes (nested info node properties) =
        [⟨node, properties⟩] ++ nodesAll properties := rfl
    simp only [assignTypes, split_nodes, diagnostics_assignTypesAll ctx,
      NodeInfo.diagnostics_assignType ctx failed node s properties, Node.unknowns_append,
      List.append_assoc]

/-- What is added to the reports are the nodes whose class is unknown, in pre-order. -/
theorem diagnostics_assignTypesAll (ctx : Context) :
    ∀ (failed : Bool) (ps : List (Property ε)) (s : Typing),
      (assignTypesAll ctx failed ps s).2.diagnostics =
        s.diagnostics ++ Node.unknowns ctx (nodesAll ps)
  | _, [], _ => by simp [assignTypesAll, nodesAll]
  | failed, p :: rest, s => by
    simp only [assignTypesAll, nodesAll, diagnostics_assignTypes ctx,
      diagnostics_assignTypesAll ctx, Node.unknowns_append, List.append_assoc]

end

mutual

theorem unknowns_typed (ctx : Context) :
    ∀ (failed : Bool) (p : Property ε),
      Node.unknowns ctx (p.typed ctx failed).nodes = Node.unknowns ctx p.nodes
  | _, scalar _ _ | _, list _ _ | _, reference _ _ => rfl
  | failed, nested info node properties => by
    exact Node.unknowns_cons_congr ⟨_, _, node.typed_eq ctx failed⟩
      (unknowns_typedAll ctx _ properties)

/-- Assigning types changes nothing that is reported on. -/
theorem unknowns_typedAll (ctx : Context) :
    ∀ (failed : Bool) (ps : List (Property ε)),
      Node.unknowns ctx (nodesAll (typedAll ctx failed ps)) = Node.unknowns ctx (nodesAll ps)
  | _, [] => rfl
  | failed, p :: rest => by
    simp only [typedAll, nodesAll, Node.unknowns_append, unknowns_typed ctx failed p,
      unknowns_typedAll ctx failed rest]

end

end Property

namespace Tree

/-- The tree after types have been assigned to its nodes. -/
def typed (ctx : Context) (t : Tree ε) : Tree ε :=
  ⟨t.root.info.typed ctx false, Property.typedAll ctx (t.root.info.isUnknown ctx) t.root.properties⟩

theorem fst_assignTypes (ctx : Context) (t : Tree ε) (diagnostics : List Diagnostic) :
    (t.assignTypes ctx diagnostics).1 = t.typed ctx := by
  simp only [assignTypes, typed, NodeInfo.fst_assignType, NodeInfo.failed_assignType,
    Property.fst_assignTypesAll, Bool.false_or]

/-- Reports are added on the nodes whose own class is unknown, in pre-order. -/
theorem diagnostics_assignTypes (ctx : Context) (t : Tree ε) (diagnostics : List Diagnostic) :
    (t.assignTypes ctx diagnostics).2.diagnostics = diagnostics ++ Node.unknowns ctx t.nodes := by
  have split_nodes : t.nodes = [t.root] ++ Property.nodesAll t.root.properties := t.nodes_eq
  simp only [assignTypes, split_nodes, Property.diagnostics_assignTypesAll, Node.unknowns_append,
    NodeInfo.diagnostics_assignType ctx false t.root.info _ t.root.properties, List.append_assoc]

theorem unknowns_typed (ctx : Context) (t : Tree ε) :
    Node.unknowns ctx (t.typed ctx).nodes = Node.unknowns ctx t.nodes := by
  rw [nodes_eq, nodes_eq]
  exact Node.unknowns_cons_congr ⟨_, _, t.root.info.typed_eq ctx false⟩
    (Property.unknowns_typedAll ctx _ t.root.properties)

end Tree

end Componentry
