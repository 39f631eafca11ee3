import Componentry.Proofs.Emission.Fields

/-!
# Accounts of binding

Binding deals with nodes, single values and the items of lists. Each of them is a subject if it
belongs to a node with a type. A step of the visit binds its subjects or makes one report on each;
what holds of two steps holds of both together.

Reports do not tell what they are about. They are told apart by when they are made: each step is
about one kind of subject, and the reports that it adds are about such subjects.

## Main definitions

* `Subject`, `Means` — what is bound, and how
* `Node.subjects`, `Node.boundBy` — the subjects and the bindings of nodes
* `BindingState.Accounts` — between two states, what there was to bind was bound or reported

## Main results

* `BindingState.Accounts.trans` — the accounts of two steps
* `BindingState.accounts_bindScalar` and its siblings — the accounts of a step
* `BindingState.Accounts.settled_node` and its siblings — the subjects by what became of them
-/

namespace Componentry

/-! ### What is bound, and how -/

/-- What is bound one by one. -/
inductive Subject where
  | node
  | scalar
  | item
  deriving DecidableEq

/-- The means by which something is bound. -/
inductive Means where
  | constructor
  | getter
  | setter
  | adder
  deriving DecidableEq

namespace Subject

/-- The kinds of problems that are reported on a subject. -/
def kinds : Subject → List Problem.Kind
  | node => [.noDefaultConstructor, .duplicateField]
  | scalar => [.unknownProperty, .duplicateField]
  | item => [.unknownProperty]

/-- A single subject. -/
def one (subject other : Subject) : Nat := if other = subject then 1 else 0

/-- How many subjects are bound, given the number for each means. -/
def bound (subject : Subject) (counts : Means → Nat) : Nat :=
  match subject with
  | node => counts .constructor + counts .getter
  | scalar => counts .setter
  | item => counts .adder

/-- Those of the reports that are about the subject. -/
def reports (subject : Subject) (raised : List (Subject × Diagnostic)) : List Diagnostic :=
  (raised.filter (·.1 = subject)).map (·.2)

@[simp] theorem reports_append (subject : Subject) (raised more : List (Subject × Diagnostic)) :
    subject.reports (raised ++ more) = subject.reports raised ++ subject.reports more := by
  simp [reports]

theorem bound_add (subject : Subject) (counts more : Means → Nat) :
    subject.bound (fun means => counts means + more means) =
      subject.bound counts + subject.bound more := by
  cases subject with
  | node => exact Nat.add_add_add_comm _ _ _ _
  | scalar | item => rfl

end Subject

namespace Means

/-- What is bound by the means. -/
def subject : Means → Subject
  | constructor | getter => .node
  | setter => .scalar
  | adder => .item

/-- A single binding. -/
def one (means other : Means) : Nat := if other = means then 1 else 0

theorem bound_one (means : Means) (subject : Subject) :
    subject.bound means.one = means.subject.one subject := by
  cases means <;> cases subject <;> rfl

end Means

/-! ### What there is in a tree -/

/-- The node is bound to a getter. -/
def NodeInfo.isHandedOut (node : NodeInfo) : Bool :=
  match node.binding with
  | .getter _ => true
  | .unbound | .constructor _ => false

/-- The adders to which items of a list are bound. -/
def PropertyInfo.adders (info : PropertyInfo) : List Method :=
  match info.binding with
  | .adders methods => methods.filterMap id
  | .unbound | .setter _ => []

/-- What the node itself adds to the subjects. -/
def NodeInfo.subjects (node : NodeInfo) : Subject → Nat
  | .node => if node.type.isSome then 1 else 0
  | .scalar | .item => 0

/-- A node with a type is one subject. -/
theorem NodeInfo.subjects_of_type {node : NodeInfo} {type : StaticType}
    (typed : node.type = some type) (subject : Subject) :
    node.subjects subject = Subject.node.one subject := by
  cases subject <;> simp [subjects, Subject.one, typed]

/-- What the node itself adds to the bindings. -/
def NodeInfo.boundBy (node : NodeInfo) : Means → Nat
  | .constructor => if node.isCreated then 1 else 0
  | .getter => if node.isHandedOut then 1 else 0
  | .setter | .adder => 0

theorem NodeInfo.boundBy_of_unbound {node : NodeInfo} (unbound : node.binding = .unbound)
    (means : Means) : node.boundBy means = 0 := by
  cases means <;> simp [boundBy, isCreated, isHandedOut, unbound]

variable {ε : Type}

namespace Property

/-- The property has a single value. -/
def isScalar : Property ε → Bool
  | scalar _ _ => true
  | list _ _ | nested _ _ _ | reference _ _ => false

/-- The items, if the property has a list of them. -/
def items : Property ε → List ε
  | list _ items => items
  | scalar _ _ | nested _ _ _ | reference _ _ => []

/-- The subjects that are properties of an owner, which has any only if it has a type. -/
def subjects (owner : Option StaticType) (ps : List (Property ε)) : Subject → Nat
  | .node => 0
  | .scalar => if owner.isSome then ps.countP (·.isScalar) else 0
  | .item => if owner.isSome then (ps.flatMap (·.items)).length else 0

/-- The bindings of properties. -/
def boundBy (ps : List (Property ε)) : Means → Nat
  | .constructor | .getter => 0
  | .setter => ps.countP (·.info.isSet)
  | .adder => (ps.flatMap (·.info.adders)).length

theorem boundBy_of_unbound {p : Property ε} (unbound : p.info.binding = .unbound) (means : Means) :
    boundBy [p] means = 0 := by
  cases means <;> simp [boundBy, PropertyInfo.isSet, PropertyInfo.adders, unbound]

theorem subjects_cons (owner : Option StaticType) (p : Property ε) (rest : List (Property ε))
    (subject : Subject) :
    subjects owner (p :: rest) subject =
      subjects owner [p] subject + subjects owner rest subject := by
  cases subject <;> cases owner <;> simp [subjects, List.countP_cons, Nat.add_comm]

theorem boundBy_cons (p : Property ε) (rest : List (Property ε)) (means : Means) :
    boundBy (p :: rest) means = boundBy [p] means + boundBy rest means := by
  cases means <;> simp [boundBy, List.countP_cons, Nat.add_comm]

end Property

namespace Node

/-- The subjects of which the nodes have charge: those with a type themselves, and their
properties. -/
def subjects (nodes : List (Node ε)) : Subject → Nat
  | .node => (nodes.filter (·.info.type.isSome)).length
  | .scalar => ((nodes.filter (·.info.type.isSome)).flatMap (·.properties)).countP (·.isScalar)
  | .item => (((nodes.filter (·.info.type.isSome)).flatMap (·.properties)).flatMap (·.items)).length

/-- The bindings of the nodes and of their properties. -/
def boundBy (nodes : List (Node ε)) : Means → Nat
  | .constructor => nodes.countP (·.info.isCreated)
  | .getter => nodes.countP (·.info.isHandedOut)
  | .setter => (nodes.flatMap (·.properties)).countP (·.info.isSet)
  | .adder => ((nodes.flatMap (·.properties)).flatMap (·.info.adders)).length

theorem subjects_cons (node : NodeInfo) (ps : List (Property ε)) (nodes : List (Node ε))
    (subject : Subject) :
    subjects (⟨node, ps⟩ :: nodes) subject =
      node.subjects subject + Property.subjects node.type ps subject + subjects nodes subject := by
  cases typed : node.type <;> cases subject <;>
    simp [subjects, NodeInfo.subjects, Property.subjects, typed, Nat.add_comm]

theorem boundBy_cons (node : NodeInfo) (ps : List (Property ε)) (nodes : List (Node ε))
    (means : Means) :
    boundBy (⟨node, ps⟩ :: nodes) means =
      node.boundBy means + Property.boundBy ps means + boundBy nodes means := by
  cases means <;> simp [boundBy, NodeInfo.boundBy, Property.boundBy, List.countP_cons, Nat.add_comm]

theorem subjects_append (nodes more : List (Node ε)) (subject : Subject) :
    subjects (nodes ++ more) subject = subjects nodes subject + subjects more subject := by
  cases subject <;> simp [subjects]

theorem boundBy_append (nodes more : List (Node ε)) (means : Means) :
    boundBy (nodes ++ more) means = boundBy nodes means + boundBy more means := by
  cases means <;> simp [boundBy]

end Node

namespace Property

/-- The subjects among properties of an owner and in the nodes in them. -/
def subjectsWithin (owner : Option StaticType) (ps : List (Property ε)) (subject : Subject) : Nat :=
  subjects owner ps subject + Node.subjects (nodesAll ps) subject

/-- The bindings of properties and in the nodes in them. -/
def boundWithin (ps : List (Property ε)) (means : Means) : Nat :=
  boundBy ps means + Node.boundBy (nodesAll ps) means

theorem subjectsWithin_cons (owner : Option StaticType) (p : Property ε) (rest : List (Property ε))
    (subject : Subject) :
    subjectsWithin owner (p :: rest) subject =
      subjectsWithin owner [p] subject + subjectsWithin owner rest subject := by
  simp only [subjectsWithin, nodesAll, List.append_nil, Node.subjects_append,
    subjects_cons owner p rest]
  omega

theorem boundWithin_cons (p : Property ε) (rest : List (Property ε)) (means : Means) :
    boundWithin (p :: rest) means = boundWithin [p] means + boundWithin rest means := by
  simp only [boundWithin, nodesAll, List.append_nil, Node.boundBy_append, boundBy_cons p rest]
  omega

theorem subjectsWithin_nested (owner : Option StaticType) (info : PropertyInfo) (node : NodeInfo)
    (ps : List (Property ε)) (subject : Subject) :
    subjectsWithin owner [nested info node ps] subject =
      subjectsWithin node.type ps subject + node.subjects subject := by
  have own : subjects owner [nested info node ps] subject = 0 := by
    cases subject <;> simp [subjects, isScalar, items]
  simp only [subjectsWithin, own, nodesAll, nodes, List.append_nil, Node.subjects_cons]
  omega

theorem boundWithin_nested {info : PropertyInfo} (unbound : info.binding = .unbound)
    (node : NodeInfo) (ps : List (Property ε)) (means : Means) :
    boundWithin [nested info node ps] means = boundWithin ps means + node.boundBy means := by
  have own : boundBy [nested info node ps] means = 0 :=
    boundBy_of_unbound (p := nested info node ps) unbound means
  simp only [boundWithin, own, nodesAll, nodes, List.append_nil, Node.boundBy_cons]
  omega

end Property

/-! ### Accounts -/

namespace BindingState

/-- The number of bindings by the given means. -/
def count (s : BindingState) : Means → Nat
  | .constructor => s.constructors
  | .getter => s.getters
  | .setter => s.setters
  | .adder => s.adders

/-- The reports that were added on the way to a later state, all about one subject. -/
def raised (s : BindingState) (subject : Subject) (later : BindingState) :
    List (Subject × Diagnostic) :=
  (later.diagnostics.drop s.diagnostics.length).map (subject, ·)

/-- On the way from one state to another, the given subjects were bound by the given means, or
reported. -/
structure Accounts (s later : BindingState) (raised : List (Subject × Diagnostic))
    (subjects : Subject → Nat) (bound : Means → Nat) : Prop where
  /-- Nothing else was reported. -/
  diagnostics : later.diagnostics = s.diagnostics ++ raised.map (·.2)
  kinds : ∀ r ∈ raised, r.2.kind ∈ r.1.kinds
  counted : ∀ means, later.count means = s.count means + bound means
  /-- Every subject was either bound or reported, and not both. -/
  settled : ∀ subject, subject.bound bound + (subject.reports raised).length = subjects subject

namespace Accounts

variable {s next later : BindingState} {raised more : List (Subject × Diagnostic)}
  {subjects others : Subject → Nat} {bound further : Means → Nat}

theorem refl (s : BindingState) : Accounts s s [] (fun _ => 0) (fun _ => 0) where
  diagnostics := (List.append_nil _).symm
  kinds := List.forall_mem_nil _
  counted _ := rfl
  settled subject := by cases subject <;> rfl

theorem trans (first : Accounts s next raised subjects bound)
    (second : Accounts next later more others further) :
    Accounts s later (raised ++ more) (fun subject => subjects subject + others subject)
      (fun means => bound means + further means) where
  diagnostics := by
    rw [second.diagnostics, first.diagnostics, List.map_append, List.append_assoc]
  kinds := List.forall_mem_append.mpr ⟨first.kinds, second.kinds⟩
  counted means := by
    rw [second.counted, first.counted, Nat.add_assoc]
  settled subject := by
    rw [Subject.bound_add, Subject.reports_append, List.length_append, ← first.settled,
      ← second.settled]
    omega

theorem congr (h : Accounts s later raised subjects bound)
    (same : ∀ subject, others subject = subjects subject)
    (alike : ∀ means, further means = bound means) : Accounts s later raised others further := by
  rw [funext same, funext alike]
  exact h

/-- Reports that are all about one subject are those that were added. -/
theorem raised_eq {subject : Subject} {reports : List Diagnostic}
    (h : Accounts s later (reports.map (subject, ·)) subjects bound) :
    Accounts s later (s.raised subject later) subjects bound := by
  have plain : (reports.map (subject, ·)).map (·.2) = reports := by
    rw [List.map_map]
    exact List.map_id reports
  have same : s.raised subject later = reports.map (subject, ·) := by
    rw [BindingState.raised, h.diagnostics, List.drop_left, plain]
  rw [same]
  exact h

/-- A report settles one subject. -/
theorem report (subject : Subject) (problem : Problem) (allowed : problem.kind ∈ subject.kinds)
    (s : BindingState) (span : Span) :
    Accounts s (s.report span problem) ([⟨span, problem⟩].map (subject, ·)) subject.one
      (fun _ => 0) where
  diagnostics := rfl
  kinds := List.forall_mem_singleton.mpr allowed
  counted means := by cases means <;> rfl
  settled other := by cases subject <;> cases other <;> rfl

/-- A binding settles one subject. -/
theorem binding (means : Means) (silent : later.diagnostics = s.diagnostics)
    (counted : ∀ other, later.count other = s.count other + means.one other) :
    Accounts s later ([].map (means.subject, ·)) means.subject.one means.one where
  diagnostics := silent.trans (List.append_nil _).symm
  kinds := List.forall_mem_nil _
  counted := counted
  settled subject := means.bound_one subject

/-- A node without a type has nothing to account for. -/
theorem untyped {node : NodeInfo} (typed : node.type = none) (unbound : node.binding = .unbound)
    (s : BindingState) : Accounts s s ([].map (Subject.node, ·)) node.subjects node.boundBy := by
  refine (refl s).congr ?_ (NodeInfo.boundBy_of_unbound unbound)
  intro subject
  cases subject <;> simp [NodeInfo.subjects, typed]

/-- A list with an item in front has one subject more, and one binding more if the item has one. -/
theorem cons_item {owner : StaticType} {reports more : List Diagnostic} {info : PropertyInfo}
    {method : Option Method} {methods : List (Option Method)} {item : ε} {rest : List ε}
    (first : Accounts s next (reports.map (Subject.item, ·)) Subject.item.one bound)
    (fits : ∀ means, bound means = if method.isSome then Means.adder.one means else 0)
    (others : Accounts next later (more.map (Subject.item, ·))
      (Property.subjects (some owner) [.list { info with binding := .adders methods } rest])
      (Property.boundBy [.list { info with binding := .adders methods } rest])) :
    Accounts s later ((reports ++ more).map (Subject.item, ·))
      (Property.subjects (some owner)
        [.list { info with binding := .adders (method :: methods) } (item :: rest)])
      (Property.boundBy
        [.list { info with binding := .adders (method :: methods) } (item :: rest)]) := by
  rw [List.map_append]
  refine (first.trans others).congr ?_ ?_
  · intro subject
    cases subject <;> simp [Property.subjects, Property.isScalar, Property.items, Subject.one,
      Nat.add_comm]
  · intro means
    rw [fits]
    cases means <;> cases method <;> simp [Property.boundBy, Property.info, PropertyInfo.isSet,
      PropertyInfo.adders, Means.one, Nat.add_comm]

end Accounts

variable [Expression ε] {lib : Library} {owner : StaticType}

/-! ### Steps -/

theorem accounts_bindScalar {info : PropertyInfo} {value : ε} {s : BindingState}
    (decided : (s.bindScalar lib owner info value).2.2.failure = none) :
    Accounts s (s.bindScalar lib owner info value).2.2
      (s.raised .scalar (s.bindScalar lib owner info value).2.2)
      (Property.subjects (some owner)
        [.scalar (s.bindScalar lib owner info value).1 (s.bindScalar lib owner info value).2.1])
      (Property.boundBy
        [.scalar (s.bindScalar lib owner info value).1
          (s.bindScalar lib owner info value).2.1]) := by
  -- Whatever becomes of it, the property is one single value.
  have single (info : PropertyInfo) (value : ε) (subject : Subject) :
      Property.subjects (some owner) [.scalar info value] subject = Subject.scalar.one subject := by
    cases subject <;> rfl
  unfold bindScalar at decided ⊢
  split at decided
  · cases decided
  · exact ((Accounts.report .scalar _ (by simp [Problem.kind, Subject.kinds]) s _).congr
      (single _ _) (Property.boundBy_of_unbound rfl)).raised_eq
  · by_cases taken : info.qualifiedName ∈ s.claimed
    · simp only [claim_of_mem taken]
      exact ((Accounts.report .scalar _ (by simp [Problem.kind, Subject.kinds]) s _).congr
        (single _ _) (Property.boundBy_of_unbound rfl)).raised_eq
    · simp only [claim_of_notMem taken]
      refine Accounts.raised_eq ((Accounts.binding .setter ?_ ?_).congr (single _ _) ?_)
      · rfl
      · intro means
        cases means <;> rfl
      · intro means
        cases means <;> rfl

theorem accounts_bindItems {info : PropertyInfo} {items : List ε} {s : BindingState}
    (decided : (bindItems lib owner info.key items s).2.2.failure = none) :
    ∃ reports : List Diagnostic,
      Accounts s (bindItems lib owner info.key items s).2.2 (reports.map (Subject.item, ·))
        (Property.subjects (some owner)
          [.list { info with binding := .adders (bindItems lib owner info.key items s).2.1 }
            (bindItems lib owner info.key items s).1])
        (Property.boundBy
          [.list { info with binding := .adders (bindItems lib owner info.key items s).2.1 }
            (bindItems lib owner info.key items s).1]) := by
  induction items generalizing s with
  | nil =>
    refine ⟨[], (Accounts.refl s).congr ?_ ?_⟩
    · intro subject
      cases subject <;> rfl
    · intro means
      cases means <;> rfl
  | cons item rest ih =>
    unfold bindItems at decided ⊢
    split at decided
    · cases decided
    · obtain ⟨reports, others⟩ := ih decided
      exact ⟨_, (Accounts.report .item _ (by simp [Problem.kind, Subject.kinds]) s _).cons_item
        (fun _ => rfl) others⟩
    · obtain ⟨reports, others⟩ := ih decided
      refine ⟨_, (Accounts.binding .adder ?_ ?_).cons_item (fun _ => rfl) others⟩
      · rfl
      · intro means
        cases means <;> rfl

theorem accounts_bindList {info : PropertyInfo} {items : List ε} {s : BindingState}
    (decided : (s.bindList lib owner info items).2.2.failure = none) :
    Accounts s (s.bindList lib owner info items).2.2
      (s.raised .item (s.bindList lib owner info items).2.2)
      (Property.subjects (some owner)
        [.list (s.bindList lib owner info items).1 (s.bindList lib owner info items).2.1])
      (Property.boundBy
        [.list (s.bindList lib owner info items).1 (s.bindList lib owner info items).2.1]) := by
  rw [snd_bindList] at decided
  obtain ⟨reports, h⟩ := accounts_bindItems decided
  simp only [bindList, decided]
  exact h.raised_eq

theorem accounts_bindConstructed {type : StaticType} {node : NodeInfo}
    (typed : node.type = some type) (s : BindingState) :
    Accounts s (s.bindConstructed lib type node).2
      (s.raised .node (s.bindConstructed lib type node).2)
      (s.bindConstructed lib type node).1.subjects (s.bindConstructed lib type node).1.boundBy := by
  have single (binding : NodeBinding) : ∀ subject,
      ({ node with binding } : NodeInfo).subjects subject = Subject.node.one subject :=
    NodeInfo.subjects_of_type typed
  unfold bindConstructed
  split
  · exact ((Accounts.report .node _ (by simp [Problem.kind, Subject.kinds]) s _).congr (single _)
      (NodeInfo.boundBy_of_unbound rfl)).raised_eq
  · by_cases taken : node.qualifiedName ∈ s.claimed
    · simp only [claim_of_mem taken]
      exact ((Accounts.report .node _ (by simp [Problem.kind, Subject.kinds]) s _).congr (single _)
        (NodeInfo.boundBy_of_unbound rfl)).raised_eq
    · simp only [claim_of_notMem taken]
      refine Accounts.raised_eq ((Accounts.binding .constructor ?_ ?_).congr (single _) ?_)
      · rfl
      · intro means
        cases means <;> rfl
      · intro means
        cases means <;> rfl

theorem accounts_bindNode {key : String} {node : NodeInfo} {s : BindingState}
    (unbound : node.binding = .unbound)
    (decided : (s.bindNode lib owner key node).2.failure = none) :
    Accounts s (s.bindNode lib owner key node).2 (s.raised .node (s.bindNode lib owner key node).2)
      (s.bindNode lib owner key node).1.subjects (s.bindNode lib owner key node).1.boundBy := by
  cases typed : node.type with
  | none =>
    simp only [bindNode, typed]
    exact (Accounts.untyped typed unbound s).raised_eq
  | some type =>
    simp only [bindNode, typed] at decided ⊢
    split at decided
    · cases decided
    · refine Accounts.raised_eq
        ((Accounts.binding .getter ?_ ?_).congr (NodeInfo.subjects_of_type rfl) ?_)
      · rfl
      · intro means
        cases means <;> rfl
      · intro means
        cases means <;> rfl
    · exact accounts_bindConstructed typed s

theorem accounts_bindRoot {node : NodeInfo} (unbound : node.binding = .unbound) (s : BindingState) :
    Accounts s (s.bindRoot lib node).2 (s.raised .node (s.bindRoot lib node).2)
      (s.bindRoot lib node).1.subjects (s.bindRoot lib node).1.boundBy := by
  cases typed : node.type with
  | none =>
    simp only [bindRoot, typed]
    exact (Accounts.untyped typed unbound s).raised_eq
  | some type =>
    simp only [bindRoot, typed]
    split
    · have reported := Accounts.report .node (.noDefaultConstructor type.text)
        (by simp [Problem.kind, Subject.kinds])
        { s with claimed := node.qualifiedName :: s.claimed } node.span
      -- The name that is claimed before has no part in the accounts.
      exact Accounts.raised_eq (Accounts.congr
        ⟨reported.diagnostics, reported.kinds, reported.counted, reported.settled⟩
        (NodeInfo.subjects_of_type typed) (NodeInfo.boundBy_of_unbound unbound))
    · refine Accounts.raised_eq
        ((Accounts.binding .constructor ?_ ?_).congr (NodeInfo.subjects_of_type rfl) ?_)
      · rfl
      · intro means
        cases means <;> rfl
      · intro means
        cases means <;> rfl

theorem type_bindNode (key : String) (node : NodeInfo) (s : BindingState) :
    (s.bindNode lib owner key node).1.type = node.type := by
  rw [fst_bindNode]

theorem type_bindRoot (lib : Library) (node : NodeInfo) (s : BindingState) :
    (s.bindRoot lib node).1.type = node.type := by
  rw [fst_bindRoot]

end BindingState

/-! ### Counting reports -/

namespace Diagnostic

theorem count_append (kind : Problem.Kind) (ds es : List Diagnostic) :
    count kind (ds ++ es) = count kind ds + count kind es :=
  List.countP_append

theorem count_eq_zero {kind : Problem.Kind} {ds : List Diagnostic}
    (other : ∀ d ∈ ds, d.kind ≠ kind) : count kind ds = 0 := by
  simpa [count] using other

theorem count_eq_length {kind : Problem.Kind} {ds : List Diagnostic}
    (only : ∀ d ∈ ds, d.kind = kind) : count kind ds = ds.length := by
  simpa [count, List.countP_eq_length] using only

/-- Reports of two kinds are counted by their kinds. -/
theorem count_add_count {a b : Problem.Kind} (differ : a ≠ b) {ds : List Diagnostic}
    (only : ∀ d ∈ ds, d.kind = a ∨ d.kind = b) : count a ds + count b ds = ds.length := by
  have others : ds.countP (·.kind = b) = ds.countP (¬ ·.kind = a) := by
    refine List.countP_congr fun d member => ?_
    rcases only d member with here | here <;> simp [here, differ, differ.symm]
  rw [count, count, others,
    List.length_eq_countP_add_countP (p := fun d : Diagnostic => d.kind = a)]
  simp

end Diagnostic

namespace BindingState.Accounts

variable {s later : BindingState} {raised : List (Subject × Diagnostic)} {subjects : Subject → Nat}
  {bound : Means → Nat}

theorem kind_of_mem_reports (h : Accounts s later raised subjects bound) {subject : Subject}
    {d : Diagnostic} (member : d ∈ subject.reports raised) : d.kind ∈ subject.kinds := by
  obtain ⟨r, inside, rfl⟩ := List.mem_map.mp member
  obtain ⟨among, about⟩ := List.mem_filter.mp inside
  exact of_decide_eq_true about ▸ h.kinds r among

/-- A node is bound, or its constructor is missing, or its name is taken. -/
theorem settled_node (h : Accounts s later raised subjects bound) :
    bound .constructor + bound .getter +
      Diagnostic.count .noDefaultConstructor (Subject.node.reports raised) +
      Diagnostic.count .duplicateField (Subject.node.reports raised) = subjects .node := by
  have kinds : ∀ d ∈ Subject.node.reports raised,
      d.kind = .noDefaultConstructor ∨ d.kind = .duplicateField := by
    intro d member
    simpa [Subject.kinds] using h.kind_of_mem_reports member
  rw [Nat.add_assoc, Diagnostic.count_add_count (by decide) kinds]
  exact h.settled .node

/-- A single value is set, or its property is unknown, or its name is taken. -/
theorem settled_scalar (h : Accounts s later raised subjects bound) :
    bound .setter + Diagnostic.count .unknownProperty (Subject.scalar.reports raised) +
      Diagnostic.count .duplicateField (Subject.scalar.reports raised) = subjects .scalar := by
  have kinds : ∀ d ∈ Subject.scalar.reports raised,
      d.kind = .unknownProperty ∨ d.kind = .duplicateField := by
    intro d member
    simpa [Subject.kinds] using h.kind_of_mem_reports member
  rw [Nat.add_assoc, Diagnostic.count_add_count (by decide) kinds]
  exact h.settled .scalar

/-- An item is added, or its property is unknown. -/
theorem settled_item (h : Accounts s later raised subjects bound) :
    bound .adder + Diagnostic.count .unknownProperty (Subject.item.reports raised) =
      subjects .item := by
  have kinds : ∀ d ∈ Subject.item.reports raised, d.kind = .unknownProperty := by
    intro d member
    simpa [Subject.kinds] using h.kind_of_mem_reports member
  rw [Diagnostic.count_eq_length kinds]
  exact h.settled .item

/-- Constructors are missed for nodes only. -/
theorem count_noDefaultConstructor (h : Accounts s later raised subjects bound) :
    Diagnostic.count .noDefaultConstructor (raised.map (·.2)) =
      Diagnostic.count .noDefaultConstructor (Subject.node.reports raised) := by
  have only (subject : Subject) : .noDefaultConstructor ∈ subject.kinds → subject = .node := by
    cases subject <;> decide
  simp only [Subject.reports, Diagnostic.count, List.countP_map, List.countP_filter]
  refine List.countP_congr fun r member => ?_
  simp only [Function.comp_apply, decide_eq_true_eq, Bool.and_eq_true]
  exact ⟨fun missing => ⟨missing, only r.1 (missing ▸ h.kinds r member)⟩, And.left⟩

/-- Binding does not report unknown classes. -/
theorem count_unknownComponent (h : Accounts s later raised subjects bound) :
    Diagnostic.count .unknownComponent (raised.map (·.2)) = 0 := by
  refine Diagnostic.count_eq_zero fun d member => ?_
  obtain ⟨r, inside, rfl⟩ := List.mem_map.mp member
  have never : .unknownComponent ∉ r.1.kinds := by
    cases r.1 <;> decide
  exact fun unknown => never (unknown ▸ h.kinds r inside)

end BindingState.Accounts

end Componentry
