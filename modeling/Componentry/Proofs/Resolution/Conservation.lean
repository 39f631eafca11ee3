import Componentry.Proofs.Resolution.Accounts

/-!
# Nothing is lost in resolution

A visit that is not ended by an ambiguous lookup has dealt with every node, single value and item
that belongs to a node with a type: it counted a binding or made one report. So the counts and the
reports add up to what there is in the tree, the counts are those of the bindings that the tree has
afterwards, and nothing is bound at a node without a type.

## Main definitions

* `Property.Ready`, `Tree.Ready` — nothing is bound, and a node has a type only if its owner has one
* `Property.raised`, `Tree.raised` — the reports of a visit, with their subjects
* `Node.IsIdle` — nothing is bound at the node if it has no type

## Main results

* `Property.accounts_bindAll` — the accounts of a visit
* `Property.isIdle_bindAll` — nothing is bound at a node without a type
* `Tree.Untouched.ready_typed` — a tree that was built is ready once its nodes have types
* `Context.binding_accounts` — the accounts of resolution
-/

namespace Componentry

variable {ε : Type}

/-! ### The visit -/

namespace Property

mutual

/-- Nothing is bound in the property, and a node in it has a type only if its owner has one. -/
def Ready (owner : Option StaticType) : Property ε → Prop
  | scalar info _ | list info _ | reference info _ => info.binding = .unbound
  | nested info node properties =>
    info.binding = .unbound ∧ node.binding = .unbound ∧ (owner = none → node.type = none) ∧
      ReadyAll node.type properties

/-- Nothing is bound in the properties, and nodes have types only if their owners have. -/
def ReadyAll (owner : Option StaticType) : List (Property ε) → Prop
  | [] => True
  | p :: rest => p.Ready owner ∧ ReadyAll owner rest

end

/-- A property that is neither bound nor holds a node has nothing to account for if it is no
subject. -/
theorem accounts_idle (p : Property ε) (unbound : p.info.binding = .unbound) (leaf : p.nodes = [])
    {owner : Option StaticType} (none : ∀ subject, subjects owner [p] subject = 0)
    (s : BindingState) : s.Accounts s [] (subjectsWithin owner [p]) (boundWithin [p]) := by
  refine (BindingState.Accounts.refl s).congr ?_ ?_
  · intro subject
    rw [subjectsWithin, none, nodesAll, leaf]
    cases subject <;> rfl
  · intro means
    rw [boundWithin, boundBy_of_unbound unbound, nodesAll, leaf]
    cases means <;> rfl

/-- The accounts of a property without nodes are its own. -/
theorem accounts_leaf {p : Property ε} (leaf : p.nodes = []) {owner : Option StaticType}
    {s later : BindingState} {reports : List (Subject × Diagnostic)}
    (h : s.Accounts later reports (subjects owner [p]) (boundBy [p])) :
    s.Accounts later reports (subjectsWithin owner [p]) (boundWithin [p]) := by
  refine h.congr ?_ ?_
  · intro subject
    rw [subjectsWithin, nodesAll, leaf]
    cases subject <;> rfl
  · intro means
    rw [boundWithin, nodesAll, leaf]
    cases means <;> rfl

variable [Expression ε] {lib : Library}

mutual

/-- The reports on a property and on the nodes in it, with their subjects. -/
def raised (lib : Library) (owner : Option StaticType) :
    Property ε → BindingState → List (Subject × Diagnostic)
  | scalar info value, s =>
    match owner with
    | none => []
    | some type => s.raised .scalar (s.bindScalar lib type info value).2.2
  | list info items, s =>
    match owner with
    | none => []
    | some type => s.raised .item (s.bindList lib type info items).2.2
  | nested info node properties, s =>
    let inside := (bindAll lib node.type properties s).2
    raisedAll lib node.type properties s ++
      match owner with
      | none => []
      | some type => inside.raised .node (inside.bindNode lib type info.key node).2
  | reference _ _, _ => []

/-- The reports on properties and on the nodes in them, with their subjects. -/
def raisedAll (lib : Library) (owner : Option StaticType) :
    List (Property ε) → BindingState → List (Subject × Diagnostic)
  | [], _ => []
  | p :: rest, s => p.raised lib owner s ++ raisedAll lib owner rest (p.bind lib owner s).2

end

/-- A visit that was not ended by an ambiguous lookup was not ended inside a node. -/
theorem failure_inside {owner : Option StaticType} {info : PropertyInfo} {node : NodeInfo}
    {properties : List (Property ε)} {s : BindingState}
    (decided : ((nested info node properties).bind lib owner s).2.failure = none) :
    (bindAll lib node.type properties s).2.failure = none := by
  cases failed : (bindAll lib node.type properties s).2.failure with
  | none => rfl
  | some error =>
    simp only [bind, failed] at decided
    exact decided

/-- A visit that was not ended by an ambiguous lookup was not ended in the first property. -/
theorem failure_first {owner : Option StaticType} {p : Property ε} {rest : List (Property ε)}
    {s : BindingState} (decided : (bindAll lib owner (p :: rest) s).2.failure = none) :
    (p.bind lib owner s).2.failure = none := by
  cases failed : (p.bind lib owner s).2.failure with
  | none => rfl
  | some error =>
    simp only [bindAll, failed] at decided
    exact decided

mutual

theorem accounts_bind :
    ∀ (owner : Option StaticType) (p : Property ε) (s : BindingState), p.Ready owner →
      (p.bind lib owner s).2.failure = none →
      s.Accounts (p.bind lib owner s).2 (p.raised lib owner s)
        (subjectsWithin owner [(p.bind lib owner s).1]) (boundWithin [(p.bind lib owner s).1])
  | none, scalar info value, s, unbound, _ =>
    accounts_idle (scalar info value) unbound rfl (fun subject => by cases subject <;> rfl) s
  | none, list info items, s, unbound, _ =>
    accounts_idle (list info items) unbound rfl (fun subject => by cases subject <;> rfl) s
  | owner, reference info target, s, unbound, _ =>
    accounts_idle (reference info target) unbound rfl
      (fun subject => by cases subject <;> cases owner <;> rfl) s
  | some type, scalar info value, s, _, decided =>
    accounts_leaf rfl (BindingState.accounts_bindScalar decided)
  | some type, list info items, s, _, decided =>
    accounts_leaf rfl (BindingState.accounts_bindList decided)
  | owner, nested info node properties, s, ⟨unbound, free, typed, below⟩, decided => by
    have inside_decided := failure_inside decided
    have inside := accounts_bindAll node.type properties s below inside_decided
    cases owner with
    | none =>
      simp only [bind, inside_decided, raised, List.append_nil]
      refine inside.congr ?_ ?_
      · intro subject
        rw [subjectsWithin_nested]
        cases subject <;> simp [NodeInfo.subjects, typed rfl]
      · intro means
        rw [boundWithin_nested unbound, NodeInfo.boundBy_of_unbound free, Nat.add_zero]
    | some type =>
      simp only [bind, inside_decided] at decided
      simp only [bind, inside_decided, raised]
      refine (inside.trans (BindingState.accounts_bindNode free decided)).congr ?_ ?_
      · intro subject
        rw [subjectsWithin_nested, BindingState.type_bindNode]
      · intro means
        rw [boundWithin_nested unbound]

/-- The accounts of a visit of properties that is not ended by an ambiguous lookup. -/
theorem accounts_bindAll :
    ∀ (owner : Option StaticType) (ps : List (Property ε)) (s : BindingState), ReadyAll owner ps →
      (bindAll lib owner ps s).2.failure = none →
      s.Accounts (bindAll lib owner ps s).2 (raisedAll lib owner ps s)
        (subjectsWithin owner (bindAll lib owner ps s).1) (boundWithin (bindAll lib owner ps s).1)
  | owner, [], s, _, _ => by
    refine (BindingState.Accounts.refl s).congr ?_ ?_
    · intro subject
      cases subject <;> cases owner <;> rfl
    · intro means
      cases means <;> rfl
  | owner, p :: rest, s, ⟨head, tail⟩, decided => by
    have first_decided := failure_first decided
    simp only [bindAll, first_decided] at decided
    simp only [bindAll, first_decided, raisedAll]
    refine ((accounts_bind owner p s head first_decided).trans
      (accounts_bindAll owner rest _ tail decided)).congr ?_ ?_
    · exact subjectsWithin_cons owner _ _
    · exact boundWithin_cons _ _

end

end Property

/-! ### Nodes without a type -/

/-- The property is not bound, and neither is the node in it, which has no type. -/
def Property.IsIdle (p : Property ε) : Prop :=
  p.info.binding = .unbound ∧
    ∀ child, p.child? = some child → child.info.type = none ∧ child.info.binding = .unbound

/-- If the node has no type, neither it nor any of its properties is bound. -/
def Node.IsIdle (n : Node ε) : Prop :=
  n.info.type = none → n.info.binding = .unbound ∧ ∀ p ∈ n.properties, p.IsIdle

theorem BindingState.fst_bindNode_of_untyped {lib : Library} {owner : StaticType} {node : NodeInfo}
    (untyped : node.type = none) (key : String) (s : BindingState) :
    (s.bindNode lib owner key node).1 = node := by
  simp only [bindNode, untyped]

namespace Property

variable [Expression ε] {lib : Library}

mutual

theorem isIdle_bind :
    ∀ (owner : Option StaticType) (p : Property ε) (s : BindingState), p.Ready owner →
      (p.bind lib owner s).2.failure = none →
      (owner = none → (p.bind lib owner s).1.IsIdle) ∧ ∀ n ∈ (p.bind lib owner s).1.nodes, n.IsIdle
  | none, scalar _ _, _, unbound, _ | none, list _ _, _, unbound, _
  | _, reference _ _, _, unbound, _ => by
    refine ⟨fun _ => ⟨unbound, ?_⟩, List.forall_mem_nil _⟩
    intro child impossible
    cases impossible
  | some type, scalar _ _, _, _, _ | some type, list _ _, _, _, _ => by
    refine ⟨?_, List.forall_mem_nil _⟩
    intro impossible
    cases impossible
  | owner, nested info node properties, s, ⟨unbound, free, typed, below⟩, decided => by
    obtain ⟨own, inside⟩ := isIdle_bindAll node.type properties s below (failure_inside decided)
    -- The node is bound or left as it is; without a type it is left.
    have idle_nodes {bound : NodeInfo} (same : bound.type = node.type)
        (left : node.type = none → bound = node) :
        ∀ n ∈ nodes (nested info bound (bindAll lib node.type properties s).1), n.IsIdle := by
      refine List.forall_mem_cons.mpr ⟨?_, inside⟩
      intro untyped
      have untyped : node.type = none := same ▸ untyped
      exact ⟨left untyped ▸ free, own untyped⟩
    simp only [bind]
    split
    · refine ⟨?_, idle_nodes (BindingState.type_bindNode info.key node _) ?_⟩
      · intro impossible
        cases impossible
      · exact fun untyped => BindingState.fst_bindNode_of_untyped untyped info.key _
    · refine ⟨fun none => ⟨unbound, ?_⟩, idle_nodes rfl fun _ => rfl⟩
      intro child found
      cases found
      exact ⟨typed none, free⟩

/-- Binding leaves alone what belongs to a node without a type. -/
theorem isIdle_bindAll :
    ∀ (owner : Option StaticType) (ps : List (Property ε)) (s : BindingState), ReadyAll owner ps →
      (bindAll lib owner ps s).2.failure = none →
      (owner = none → ∀ p ∈ (bindAll lib owner ps s).1, p.IsIdle) ∧
      ∀ n ∈ nodesAll (bindAll lib owner ps s).1, n.IsIdle
  | _, [], _, _, _ => ⟨fun _ => List.forall_mem_nil _, List.forall_mem_nil _⟩
  | owner, p :: rest, s, ⟨head, tail⟩, decided => by
    have first_decided := failure_first decided
    simp only [bindAll, first_decided] at decided
    obtain ⟨first, inside⟩ := isIdle_bind owner p s head first_decided
    obtain ⟨others, further⟩ := isIdle_bindAll owner rest (p.bind lib owner s).2 tail decided
    simp only [bindAll, first_decided]
    exact ⟨fun none => List.forall_mem_cons.mpr ⟨first none, others none⟩,
      List.forall_mem_append.mpr ⟨inside, further⟩⟩

end

end Property

/-! ### Trees -/

/-- Types are assigned from the root down: a node has none if its owner has none or its class is
unknown. -/
theorem NodeInfo.isNone_type_typed (ctx : Context) {node : NodeInfo} (untyped : node.type = none)
    (failed : Bool) : (node.typed ctx failed).type.isNone = (failed || node.isUnknown ctx) := by
  cases known : ctx.resolveComponent node.name with
  | none => simp [typed, isUnknown, known, untyped]
  | some type => cases failed <;> simp [typed, isUnknown, known, untyped]

namespace Property

variable [Expression ε] {ctx : Context}

mutual

theorem Untouched.ready_typed :
    ∀ {owner : Option StaticType} {p : Property ε}, p.Untouched →
      (p.typed ctx owner.isNone).Ready owner
  | _, scalar _ _, unbound | _, list _ _, unbound | _, reference _ _, unbound => unbound
  | owner, nested info node properties, ⟨unbound, ⟨untyped, free⟩, below⟩ => by
    have type_eq := NodeInfo.isNone_type_typed ctx untyped owner.isNone
    have binding_eq : (node.typed ctx owner.isNone).binding = node.binding := by
      rw [node.typed_eq ctx owner.isNone]
    rw [Property.typed, ← type_eq]
    refine ⟨unbound, binding_eq.trans free, ?_, below.readyAll_typedAll⟩
    rintro rfl
    exact Option.isNone_iff_eq_none.mp type_eq

/-- When types are assigned to untouched properties, they are ready to be bound. -/
theorem UntouchedAll.readyAll_typedAll :
    ∀ {owner : Option StaticType} {ps : List (Property ε)}, UntouchedAll ps →
      ReadyAll owner (Property.typedAll ctx owner.isNone ps)
  | _, [], _ => trivial
  | _, _ :: _, ⟨head, tail⟩ => ⟨head.ready_typed, tail.readyAll_typedAll⟩

end

end Property

namespace Tree

variable [Expression ε] {lib : Library} {t : Tree ε}

/-- The reports of a visit, with their subjects. -/
def raised (lib : Library) (t : Tree ε) (before : List Diagnostic) : List (Subject × Diagnostic) :=
  let start : BindingState := { diagnostics := before }
  let (node, s) := start.bindRoot lib t.root.info
  start.raised .node s ++ Property.raisedAll lib node.type t.root.properties s

/-- Nothing in the tree is bound, and a node has a type only if its owner has one. -/
structure Ready (t : Tree ε) : Prop where
  root : t.root.info.binding = .unbound
  properties : Property.ReadyAll t.root.info.type t.root.properties

theorem Untouched.ready_typed (h : t.Untouched) (ctx : Context) : (t.typed ctx).Ready := by
  obtain ⟨untyped, free⟩ := h.root
  have type_eq := NodeInfo.isNone_type_typed ctx untyped false
  refine ⟨?_, ?_⟩
  · rw [typed, t.root.info.typed_eq ctx false]
    exact free
  · rw [typed, ← Bool.false_or (t.root.info.isUnknown ctx), ← type_eq]
    exact h.properties.readyAll_typedAll

/-- The accounts of a visit of a tree. -/
theorem Ready.accounts_bind (ready : t.Ready) {before : List Diagnostic}
    (decided : (t.bind lib before).2.failure = none) :
    BindingState.Accounts { diagnostics := before } (t.bind lib before).2 (t.raised lib before)
      (Node.subjects (t.bind lib before).1.nodes) (Node.boundBy (t.bind lib before).1.nodes) := by
  have properties := ready.properties
  rw [← BindingState.type_bindRoot lib t.root.info { diagnostics := before }] at properties
  refine ((BindingState.accounts_bindRoot ready.root _).trans
    (Property.accounts_bindAll _ _ _ properties decided)).congr ?_ ?_
  · intro subject
    rw [nodes_eq, Node.nodes]
    exact (Node.subjects_cons _ _ _ subject).trans (Nat.add_assoc _ _ _)
  · intro means
    rw [nodes_eq, Node.nodes]
    exact (Node.boundBy_cons _ _ _ means).trans (Nat.add_assoc _ _ _)

/-- Binding a tree leaves alone what belongs to a node without a type. -/
theorem Ready.isIdle_bind (ready : t.Ready) {before : List Diagnostic}
    (decided : (t.bind lib before).2.failure = none) :
    ∀ n ∈ (t.bind lib before).1.nodes, n.IsIdle := by
  have same := BindingState.type_bindRoot lib t.root.info { diagnostics := before }
  have properties := ready.properties
  rw [← same] at properties
  obtain ⟨own, inside⟩ := Property.isIdle_bindAll _ _ _ properties decided
  rw [nodes_eq, Node.nodes]
  refine List.forall_mem_cons.mpr ⟨?_, inside⟩
  intro untyped
  refine ⟨?_, own untyped⟩
  have left :
      (BindingState.bindRoot lib t.root.info { diagnostics := before }).1 = t.root.info := by
    simp only [BindingState.bindRoot, same.symm.trans untyped]
  exact (congrArg NodeInfo.binding left).trans ready.root

end Tree

/-! ### Resolution -/

/-- The nodes whose class is unknown are all that is reported when types are assigned. -/
theorem Node.count_unknowns (ctx : Context) (kind : Problem.Kind) (nodes : List (Node ε)) :
    Diagnostic.count kind (unknowns ctx nodes) =
      if kind = .unknownComponent then nodes.countP (·.info.isUnknown ctx) else 0 := by
  have kinds : ∀ d ∈ unknowns ctx nodes, d.kind = .unknownComponent := by
    intro d member
    obtain ⟨n, -, rfl⟩ := List.mem_map.mp member
    rfl
  split
  · rename_i unknown
    rw [unknown, Diagnostic.count_eq_length kinds, unknowns, List.length_map,
      List.countP_eq_length_filter]
  · rename_i other
    refine Diagnostic.count_eq_zero fun d member same => ?_
    exact other (same.symm.trans (kinds d member))

/-- Nothing is lost in the resolution of a tree of literals, and nothing is reported twice, provided
that no lookup is ambiguous. Of the nodes with a type, each is created, handed out or reported; so
is each of their single values set or reported, and each item of their lists added or reported. The
counts are those of the bindings in the tree, and nothing is bound at a node without a type. -/
theorem Context.binding_accounts (ctx : Context) {t : Tree LiteralExpr} (fresh : t.IsFresh)
    (decided : (ctx.binding t).2.failure = none) :
    let bound := (ctx.binding t).1
    let s := (ctx.binding t).2
    let typed := bound.nodes.filter (·.info.type.isSome)
    let raised := (t.typed ctx).raised ctx.library (Node.unknowns ctx t.nodes)
    s.diagnostics = Node.unknowns ctx t.nodes ++ raised.map (·.2) ∧
    Diagnostic.count .unknownComponent s.diagnostics = t.nodes.countP (·.info.isUnknown ctx) ∧
    s.constructors + s.getters + Diagnostic.count .noDefaultConstructor s.diagnostics +
      Diagnostic.count .duplicateField (Subject.node.reports raised) = typed.length ∧
    s.setters + Diagnostic.count .unknownProperty (Subject.scalar.reports raised) +
      Diagnostic.count .duplicateField (Subject.scalar.reports raised) =
        (typed.flatMap (·.properties)).countP (·.isScalar) ∧
    s.adders + Diagnostic.count .unknownProperty (Subject.item.reports raised) =
      ((typed.flatMap (·.properties)).flatMap (·.items)).length ∧
    s.constructors = bound.nodes.countP (·.info.isCreated) ∧
    s.getters = bound.nodes.countP (·.info.isHandedOut) ∧
    s.setters = (bound.nodes.flatMap (·.properties)).countP (·.info.isSet) ∧
    s.adders = ((bound.nodes.flatMap (·.properties)).flatMap (·.info.adders)).length ∧
    ∀ n ∈ bound.nodes, n.IsIdle := by
  have ready := fresh.untouched.ready_typed ctx
  intro bound s typed raised
  have bound_eq : ctx.binding t = (t.typed ctx).bind ctx.library (Node.unknowns ctx t.nodes) :=
    ctx.binding_eq t
  have h : BindingState.Accounts { diagnostics := Node.unknowns ctx t.nodes } s raised
      (Node.subjects bound.nodes) (Node.boundBy bound.nodes) := by
    rw [bound_eq] at decided
    simp only [bound, s, bound_eq]
    exact ready.accounts_bind decided
  have idle : ∀ n ∈ bound.nodes, n.IsIdle := by
    rw [bound_eq] at decided
    simp only [bound, bound_eq]
    exact ready.isIdle_bind decided
  -- The counts start at zero.
  have counted (means : Means) : s.count means = Node.boundBy bound.nodes means := by
    rw [h.counted means]
    cases means <;> exact Nat.zero_add _
  have unknowns : Diagnostic.count .unknownComponent s.diagnostics =
      t.nodes.countP (·.info.isUnknown ctx) := by
    rw [h.diagnostics, Diagnostic.count_append, h.count_unknownComponent, Nat.add_zero]
    exact Node.count_unknowns ctx .unknownComponent t.nodes
  have missing : Diagnostic.count .noDefaultConstructor s.diagnostics =
      Diagnostic.count .noDefaultConstructor (Subject.node.reports raised) := by
    have none := Node.count_unknowns ctx .noDefaultConstructor t.nodes
    rw [if_neg (by decide)] at none
    rw [h.diagnostics, Diagnostic.count_append, h.count_noDefaultConstructor, none, Nat.zero_add]
  refine ⟨h.diagnostics, unknowns, ?_, ?_, ?_, counted .constructor, counted .getter,
    counted .setter, counted .adder, idle⟩
  · have nodes := h.settled_node
    rw [← counted, ← counted, ← missing] at nodes
    exact nodes
  · have scalars := h.settled_scalar
    rw [← counted] at scalars
    exact scalars
  · have items := h.settled_item
    rw [← counted] at items
    exact items

namespace Sample

/-- A window on which everything is met that keeps something from being bound: a value that is given
twice and one that is not known, an item that is not accepted, a node whose name is taken and one
that cannot be created, and a node of an unknown class with things in it. -/
def crowded : Tree LiteralExpr :=
  .ofLiterals "window" (line 1)
    [⟨0, "title", line 2, .scalar (.string "Hi", line 2)⟩,
      ⟨0, "title", line 3, .scalar (.string "Ho", line 3)⟩,
      ⟨0, "depth", line 4, .scalar (.int 3, line 4)⟩,
      ⟨0, "mark", line 5, .list [(.int 1, line 5), (.bool true, line 6)]⟩,
      ⟨0, "pane", line 7, .node "panel"⟩,
      ⟨0, "left", line 8, .node "button"⟩,
      ⟨0, "pane", line 9, .node "button"⟩,
      ⟨0, "back", line 10, .node "panel"⟩,
      ⟨0, "light", line 11, .node "lamp"⟩,
      ⟨5, "text", line 12, .scalar (.string "on", line 12)⟩,
      ⟨5, "switch", line 13, .node "button"⟩]

/-- Of the seven nodes in the crowded window five have types: two are created, one is handed out,
one cannot be created and one has a name that is taken. -/
theorem crowded_accounts :
    crowded.IsFresh ∧ (context.binding crowded).2.failure = none ∧
    (context.binding crowded).2.constructors = 2 ∧ (context.binding crowded).2.getters = 1 ∧
    Diagnostic.count .noDefaultConstructor (context.binding crowded).2.diagnostics = 1 ∧
    Diagnostic.count .duplicateField
      (Subject.node.reports ((crowded.typed context).raised context.library
        (Node.unknowns context crowded.nodes))) = 1 ∧
    ((context.binding crowded).1.nodes.filter (·.info.type.isSome)).length = 5 ∧
    ∀ n ∈ (context.binding crowded).1.nodes, n.IsIdle := by
  have fresh : crowded.IsFresh := ⟨_, _, _, rfl⟩
  have decided : (context.binding crowded).2.failure = none := by decide +kernel
  have constructors : (context.binding crowded).2.constructors = 2 := by decide +kernel
  have getters : (context.binding crowded).2.getters = 1 := by decide +kernel
  have missing :
      Diagnostic.count .noDefaultConstructor (context.binding crowded).2.diagnostics = 1 := by
    decide +kernel
  have taken : Diagnostic.count .duplicateField
      (Subject.node.reports ((crowded.typed context).raised context.library
        (Node.unknowns context crowded.nodes))) = 1 := by
    decide +kernel
  obtain ⟨-, -, nodes, -, -, -, -, -, -, idle⟩ := context.binding_accounts fresh decided
  rw [constructors, getters, missing, taken] at nodes
  exact ⟨fresh, decided, constructors, getters, missing, taken, nodes.symm, idle⟩

end Sample

end Componentry
