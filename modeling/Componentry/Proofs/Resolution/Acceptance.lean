import Componentry.Compile
import Componentry.Library.Registry
import Componentry.Proofs.Resolution.Names
import Componentry.Proofs.Resolution.Types
import Componentry.Proofs.Tree.Building

/-!
# Which trees are accepted

Resolution visits a tree twice, with a state of reports and claimed names. Whether it ends without a
report can be said without any order of visits: every node stands for a known class, every property
fits the class of its owner, the root can be created, and no two things that are stored share a
name.

## Main definitions

* `Property.Fits`, `Node.Fits` — what is required of a property, and of a node with its own
  properties
* `Tree.Acceptable` — the whole condition
* `Tree.resolved` — the tree that resolution makes of an acceptable one
* `Context.binding` — the visit that binds, as a part of resolution

## Main results

* `Property.bindAll_typedAll` — how the properties of a typed node are bound if nothing stands in
  the way
* `Property.admissibleAll_of_clean` — nothing stood in the way if nothing is reported
* `Context.binding_eq_of_acceptable` — how an acceptable tree is bound
* `Context.resolve_eq_of_acceptable` — what resolution makes of an acceptable tree
* `Context.accepts_iff_acceptable` — resolution goes through exactly for the acceptable trees
-/

namespace Componentry

variable {ε : Type} [Expression ε] {ctx : Context}

/-- A value as binding meets it: string literals have the type of the library's strings. -/
def Context.prepare (ctx : Context) (value : ε) : ε :=
  Expression.withStringType ctx.library.stringType value

namespace Property

/-- What is required of a property of an owner of the given type. -/
def Fits (ctx : Context) (owner : StaticType) : Property ε → Prop
  | scalar info value =>
    ∃ method, ctx.library.resolveMethod owner (Naming.setter info.key)
      [Expression.type (ctx.prepare value)] = .ok method
  | list info items =>
    ∀ item ∈ items, ∃ method, ctx.library.resolveMethod owner (Naming.adder info.key)
      [Expression.type (ctx.prepare item)] = .ok method
  | nested info node _ =>
    ∃ type, ctx.resolveComponent node.name = some type ∧
      (∀ error, ctx.library.resolveMethod owner (Naming.getter info.key) [] = .error error →
        error.isNotFound = true) ∧
      (ctx.library.handsOut owner info.key type = true ∨
        ∃ constructor, ctx.library.defaultConstructor type = some constructor)
  | reference _ _ => True

mutual

/-- A property of an owner of the given type after its resolution, if nothing stands in the way. -/
def resolved (ctx : Context) (owner : StaticType) : Property ε → Property ε
  | scalar info value =>
    scalar { info with binding := ctx.library.setterBinding owner info.key (ctx.prepare value) }
      (ctx.library.adapted owner (Naming.setter info.key) (ctx.prepare value))
  | list info items =>
    let items := items.map ctx.prepare
    list { info with binding := .adders (ctx.library.itemMethods owner info.key items) }
      (items.map (ctx.library.adapted owner (Naming.adder info.key)))
  | nested info node properties =>
    match ctx.resolveComponent node.name with
    | some type =>
      let binding := ctx.library.nodeBinding owner info.key type
      nested info { node with type := some type, binding } (resolvedAll ctx type properties)
    | none => nested info node properties
  | reference info target => reference info target

/-- The properties of an owner of the given type after their resolution. -/
def resolvedAll (ctx : Context) (owner : StaticType) : List (Property ε) → List (Property ε)
  | [] => []
  | p :: rest => p.resolved ctx owner :: resolvedAll ctx owner rest

end

end Property

/-- The node stands for a known class, and its properties fit. -/
def Node.Fits (ctx : Context) (n : Node ε) : Prop :=
  ∃ type, ctx.resolveComponent n.info.name = some type ∧ ∀ p ∈ n.properties, p.Fits ctx type

namespace Tree

/-- The condition under which resolution goes through. -/
structure Acceptable (ctx : Context) (t : Tree ε) : Prop where
  /-- Every node stands for a known class, which all its properties fit. -/
  fits : ∀ n ∈ t.nodes, n.Fits ctx
  /-- The root can be created. -/
  creatable : ∃ type constructor, ctx.resolveComponent t.root.info.name = some type ∧
    ctx.library.defaultConstructor type = some constructor
  /-- No two things that are stored share a name. -/
  distinct : (t.storedNames ctx).Nodup

/-- The tree after its resolution, if nothing stands in the way. -/
def resolved (ctx : Context) (t : Tree ε) : Tree ε :=
  match ctx.resolveComponent t.root.info.name with
  | some type =>
    let binding := ctx.library.constructedBinding type
    ⟨{ t.root.info with type := some type, binding },
      Property.resolvedAll ctx type t.root.properties⟩
  | none => t

end Tree

namespace Property

/-- Nothing stands in the way of binding a property when the names in `claimed` are taken. -/
structure Admissible (ctx : Context) (owner : StaticType) (claimed : List String) (p : Property ε) :
    Prop where
  fits : p.Fits ctx owner
  below : ∀ n ∈ p.nodes, n.Fits ctx
  distinct : (p.claims ctx owner).Nodup
  free : ∀ name ∈ p.claims ctx owner, name ∉ claimed

/-- Nothing stands in the way of binding properties when the names in `claimed` are taken. -/
structure AdmissibleAll (ctx : Context) (owner : StaticType) (claimed : List String)
    (ps : List (Property ε)) : Prop where
  fits : ∀ p ∈ ps, p.Fits ctx owner
  below : ∀ n ∈ nodesAll ps, n.Fits ctx
  distinct : (claimsAll ctx owner ps).Nodup
  free : ∀ name ∈ claimsAll ctx owner ps, name ∉ claimed

variable {owner : StaticType} {claimed : List String}

theorem AdmissibleAll.of_perm {other : List String} {ps : List (Property ε)}
    (same : claimed.Perm other) (h : AdmissibleAll ctx owner claimed ps) :
    AdmissibleAll ctx owner other ps :=
  ⟨h.fits, h.below, h.distinct, fun name member => mt same.mem_iff.mpr (h.free name member)⟩

/-- The names of the first property are taken for the others. -/
theorem admissibleAll_cons_iff {p : Property ε} {rest : List (Property ε)} :
    AdmissibleAll ctx owner claimed (p :: rest) ↔
      p.Admissible ctx owner claimed ∧
      AdmissibleAll ctx owner (p.claims ctx owner ++ claimed) rest := by
  constructor
  · rintro ⟨fits, below, distinct, free⟩
    rw [List.forall_mem_cons] at fits
    rw [nodesAll, List.forall_mem_append] at below
    rw [claimsAll, List.forall_mem_append] at free
    obtain ⟨first, others, apart⟩ := List.nodup_append.mp distinct
    refine ⟨⟨fits.1, below.1, first, free.1⟩, fits.2, below.2, others, ?_⟩
    intro name member taken
    rcases List.mem_append.mp taken with earlier | earlier
    · exact apart name earlier name member rfl
    · exact free.2 name member earlier
  · rintro ⟨⟨fits, below, distinct, free⟩, others⟩
    refine ⟨List.forall_mem_cons.mpr ⟨fits, others.fits⟩, ?_, ?_, ?_⟩
    · rw [nodesAll, List.forall_mem_append]
      exact ⟨below, others.below⟩
    · refine List.nodup_append.mpr ⟨distinct, others.distinct, ?_⟩
      rintro name member _ inside rfl
      exact others.free name inside (List.mem_append_left _ member)
    · rw [claimsAll, List.forall_mem_append]
      exact ⟨free, fun name member => mt (List.mem_append_right _) (others.free name member)⟩

/-- A nested node is bound after its properties; if it is not handed out, it needs a constructor and
a name that none of them has. -/
theorem admissible_nested_iff {info : PropertyInfo} {node : NodeInfo}
    {properties : List (Property ε)} :
    (nested info node properties).Admissible ctx owner claimed ↔
      ∃ type, ctx.resolveComponent node.name = some type ∧
        AdmissibleAll ctx type claimed properties ∧
        (∀ error, ctx.library.resolveMethod owner (Naming.getter info.key) [] = .error error →
          error.isNotFound = true) ∧
        (ctx.library.handsOut owner info.key type = false →
          node.qualifiedName ∉ claimsAll ctx type properties ++ claimed ∧
            ∃ constructor, ctx.library.defaultConstructor type = some constructor) := by
  constructor
  · rintro ⟨⟨type, known, unambiguous, obtained⟩, below, distinct, free⟩
    rw [nodes, List.forall_mem_cons] at below
    obtain ⟨⟨type', known', fits⟩, below⟩ := below
    obtain rfl : type = type' := Option.some.inj (known.symm.trans known')
    rw [claims_nested known] at distinct free
    rw [List.forall_mem_append] at free
    refine ⟨type, known, ⟨fits, below, (List.nodup_append.mp distinct).2.1, free.2⟩,
      unambiguous, ?_⟩
    intro kept
    rw [kept] at distinct free obtained
    refine ⟨?_, obtained.resolve_left Bool.false_ne_true⟩
    rw [List.mem_append, not_or]
    exact ⟨(List.nodup_cons.mp distinct).1, free.1 _ List.mem_cons_self⟩
  · rintro ⟨type, known, ⟨fits, below, distinct, free⟩, unambiguous, created⟩
    have node_below : ∀ n ∈ (nested info node properties).nodes, n.Fits ctx := by
      rw [nodes, List.forall_mem_cons]
      exact ⟨⟨type, known, fits⟩, below⟩
    cases handed : ctx.library.handsOut owner info.key type with
    | true =>
      refine ⟨⟨type, known, unambiguous, Or.inl handed⟩, node_below, ?_, ?_⟩
      · simpa [claims_nested known, handed] using distinct
      · simpa [claims_nested known, handed] using free
    | false =>
      obtain ⟨unused, found⟩ := created handed
      rw [List.mem_append, not_or] at unused
      refine ⟨⟨type, known, unambiguous, Or.inr found⟩, node_below, ?_, ?_⟩
      · simpa [claims_nested known, handed] using ⟨unused.1, distinct⟩
      · simpa [claims_nested known, handed] using ⟨unused.2, free⟩

/-! ### The visit that binds -/

theorem typed_scalar (failed : Bool) (info : PropertyInfo) (value : ε) :
    (scalar info value).typed ctx failed = scalar info (ctx.prepare value) := rfl

theorem typed_list (failed : Bool) (info : PropertyInfo) (items : List ε) :
    (list info items).typed ctx failed = list info (items.map ctx.prepare) := rfl

theorem typed_nested {info : PropertyInfo} {node : NodeInfo} {properties : List (Property ε)}
    {type : StaticType} (known : ctx.resolveComponent node.name = some type) :
    (nested info node properties).typed ctx false =
      nested info { node with type := some type } (typedAll ctx false properties) := by
  simp [typed, NodeInfo.typed, NodeInfo.isUnknown, known]

theorem resolved_nested {info : PropertyInfo} {node : NodeInfo} {properties : List (Property ε)}
    {type : StaticType} (known : ctx.resolveComponent node.name = some type) :
    (nested info node properties).resolved ctx owner =
      nested info
        { node with type := some type, binding := ctx.library.nodeBinding owner info.key type }
        (resolvedAll ctx type properties) := by
  simp [resolved, known]

mutual

/-- How a property is bound if nothing stands in the way. -/
theorem bind_typed :
    ∀ {owner : StaticType} {p : Property ε} {s : BindingState}, s.Clean →
      p.Admissible ctx owner s.claimed →
      ∃ s' : BindingState,
        (p.typed ctx false).bind ctx.library (some owner) s = (p.resolved ctx owner, s') ∧
        s'.Clean ∧ s'.claimed.Perm (p.claims ctx owner ++ s.claimed)
  | owner, scalar info value, s, clean, h => by
    obtain ⟨method, found⟩ := h.fits
    have free : info.qualifiedName ∉ s.claimed := h.free _ List.mem_cons_self
    refine ⟨{ s with claimed := info.qualifiedName :: s.claimed, setters := s.setters + 1 }, ?_,
      ⟨clean.diagnostics, clean.failure⟩, List.Perm.refl _⟩
    simp only [typed_scalar, bind, resolved, BindingState.bindScalar_eq found free]
  | owner, list info items, s, clean, h => by
    have found : ∀ e ∈ items.map ctx.prepare, ∃ method,
        ctx.library.resolveMethod owner (Naming.adder info.key) [Expression.type e] =
          .ok method := by
      intro e member
      obtain ⟨item, inside, rfl⟩ := List.mem_map.mp member
      exact h.fits item inside
    refine ⟨{ s with adders := s.adders + (items.map ctx.prepare).length }, ?_,
      ⟨clean.diagnostics, clean.failure⟩, List.Perm.refl _⟩
    simp only [typed_list, bind, resolved, BindingState.bindList_eq clean found]
  | owner, nested info node properties, s, clean, h => by
    obtain ⟨type, known, inside, unambiguous, created⟩ := admissible_nested_iff.mp h
    -- The properties of the node come first; its own name is claimed after theirs.
    obtain ⟨s₁, bound, clean₁, claimed₁⟩ := bindAll_typedAll clean inside
    have node_typed : ({ node with type := some type } : NodeInfo).type = some type := rfl
    rw [typed_nested known, resolved_nested known, claims_nested known]
    simp only [bind, bound, clean₁.failure]
    cases handed : ctx.library.handsOut owner info.key type with
    | true =>
      rw [BindingState.bindNode_of_handsOut node_typed handed]
      exact ⟨_, rfl, ⟨clean₁.diagnostics, clean₁.failure⟩, claimed₁⟩
    | false =>
      obtain ⟨free, constructor, found⟩ := created handed
      rw [BindingState.bindNode_of_not_handsOut node_typed unambiguous handed found
        (mt claimed₁.mem_iff.mp free)]
      exact ⟨_, rfl, ⟨clean₁.diagnostics, clean₁.failure⟩, claimed₁.cons _⟩
  | owner, reference info target, s, clean, h => ⟨s, rfl, clean, List.Perm.refl _⟩

/-- How properties are bound if nothing stands in the way. -/
theorem bindAll_typedAll :
    ∀ {owner : StaticType} {ps : List (Property ε)} {s : BindingState}, s.Clean →
      AdmissibleAll ctx owner s.claimed ps →
      ∃ s' : BindingState, bindAll ctx.library (some owner) (typedAll ctx false ps) s =
          (resolvedAll ctx owner ps, s') ∧
        s'.Clean ∧ s'.claimed.Perm (claimsAll ctx owner ps ++ s.claimed)
  | owner, [], s, clean, h => ⟨s, rfl, clean, List.Perm.refl _⟩
  | owner, p :: rest, s, clean, h => by
    obtain ⟨first, others⟩ := admissibleAll_cons_iff.mp h
    obtain ⟨s₁, bound₁, clean₁, claimed₁⟩ := bind_typed clean first
    -- Names are claimed children first, but listed in pre-order; only which names are taken
    -- matters.
    obtain ⟨s₂, bound₂, clean₂, claimed₂⟩ := bindAll_typedAll clean₁ (others.of_perm claimed₁.symm)
    refine ⟨s₂, ?_, clean₂, ?_⟩
    · simp only [typedAll, bindAll, bound₁, clean₁.failure, bound₂, resolvedAll]
    · refine claimed₂.trans ((claimed₁.append_left _).trans ?_)
      rw [claimsAll, ← List.append_assoc]
      exact List.perm_append_comm.append_right _

end

mutual

theorem admissible_of_clean :
    ∀ {owner : StaticType} {p : Property ε} {s : BindingState},
      (∀ n ∈ p.nodes, ∃ type, ctx.resolveComponent n.info.name = some type) →
      ((p.typed ctx false).bind ctx.library (some owner) s).2.Clean →
      s.Clean ∧ p.Admissible ctx owner s.claimed
  | owner, scalar info value, s, known, clean => by
    rw [typed_scalar, bind] at clean
    obtain ⟨before, free, found⟩ := BindingState.clean_bindScalar clean
    refine ⟨before, found, by simp [nodes], ?_, ?_⟩
    · simp [claims, storedName?]
    · simpa [claims, storedName?] using free
  | owner, list info items, s, known, clean => by
    rw [typed_list, bind] at clean
    obtain ⟨before, found⟩ := BindingState.clean_bindList clean
    refine ⟨before, fun item member => ?_, by simp [nodes], List.nodup_nil, by simp [claims]⟩
    exact found (ctx.prepare item) (List.mem_map_of_mem member)
  | owner, nested info node properties, s, known, clean => by
    rw [nodes, List.forall_mem_cons] at known
    obtain ⟨⟨type, known⟩, below⟩ := known
    have node_typed : ({ node with type := some type } : NodeInfo).type = some type := rfl
    rw [typed_nested known] at clean
    simp only [bind] at clean
    -- A visit that ended inside the node ends there for good, and is not clean.
    cases failure :
      (bindAll ctx.library (some type) (typedAll ctx false properties) s).2.failure with
    | some error =>
      rw [failure] at clean
      exact absurd clean.failure (by simp [failure])
    | none =>
      rw [failure] at clean
      obtain ⟨inner, unambiguous, created⟩ := BindingState.clean_bindNode node_typed clean
      obtain ⟨before, inside⟩ := admissibleAll_of_clean below inner
      -- Now that the visit of the properties is known to go through, so are the names it left
      -- taken.
      obtain ⟨s₁, bound, -, claimed₁⟩ := bindAll_typedAll before inside
      rw [bound] at created
      refine ⟨before, admissible_nested_iff.mpr ⟨type, known, inside, unambiguous, fun kept => ?_⟩⟩
      obtain ⟨free, found⟩ := created kept
      exact ⟨mt claimed₁.mem_iff.mpr free, found⟩
  | owner, reference info target, s, known, clean =>
    ⟨clean, trivial, by simp [nodes], List.nodup_nil, by simp [claims]⟩

/-- Nothing stood in the way of binding the properties of a typed node if nothing is reported. -/
theorem admissibleAll_of_clean :
    ∀ {owner : StaticType} {ps : List (Property ε)} {s : BindingState},
      (∀ n ∈ nodesAll ps, ∃ type, ctx.resolveComponent n.info.name = some type) →
      (bindAll ctx.library (some owner) (typedAll ctx false ps) s).2.Clean →
      s.Clean ∧ AdmissibleAll ctx owner s.claimed ps
  | owner, [], s, known, clean =>
    ⟨clean, by simp, by simp [nodesAll], List.nodup_nil, by simp [claimsAll]⟩
  | owner, p :: rest, s, known, clean => by
    rw [nodesAll, List.forall_mem_append] at known
    simp only [typedAll, bindAll] at clean
    cases failure : ((p.typed ctx false).bind ctx.library (some owner) s).2.failure with
    | some error =>
      rw [failure] at clean
      exact absurd clean.failure (by simp [failure])
    | none =>
      rw [failure] at clean
      obtain ⟨between, others⟩ := admissibleAll_of_clean known.2 clean
      obtain ⟨before, first⟩ := admissible_of_clean known.1 between
      obtain ⟨s₁, bound, -, claimed₁⟩ := bind_typed before first
      rw [bound] at others
      exact ⟨before, admissibleAll_cons_iff.mpr ⟨first, others.of_perm claimed₁⟩⟩

end

end Property

namespace Tree

variable {t : Tree ε} {type : StaticType}

/-- The names of what is stored are those claimed for the properties of the root, and its own. -/
theorem storedNames_perm (known : ctx.resolveComponent t.root.info.name = some type)
    (below : ∀ n ∈ Property.nodesAll t.root.properties, n.Fits ctx) :
    (t.storedNames ctx).Perm
      (t.root.info.qualifiedName :: Property.claimsAll ctx type t.root.properties) := by
  have classes : ∀ n ∈ Property.nodesAll t.root.properties, ∃ type,
      ctx.resolveComponent n.info.name = some type := by
    intro n member
    obtain ⟨type, known, -⟩ := below n member
    exact ⟨type, known⟩
  rw [storedNames, nodes_eq, Node.nodes, List.flatMap_cons, Node.storedNames]
  simp only [known]
  exact (Property.claimsAll_perm classes).symm.cons _

/-- A tree is acceptable if its root can be created and nothing stands in the way of its
properties. -/
theorem acceptable_iff (known : ctx.resolveComponent t.root.info.name = some type) :
    t.Acceptable ctx ↔ (∃ constructor, ctx.library.defaultConstructor type = some constructor) ∧
      Property.AdmissibleAll ctx type [t.root.info.qualifiedName] t.root.properties := by
  constructor
  · rintro ⟨fits, ⟨type', constructor, known', found⟩, distinct⟩
    obtain rfl : type = type' := Option.some.inj (known.symm.trans known')
    rw [nodes_eq, Node.nodes, List.forall_mem_cons] at fits
    obtain ⟨⟨type', known', root⟩, below⟩ := fits
    obtain rfl : type = type' := Option.some.inj (known.symm.trans known')
    rw [(storedNames_perm known below).nodup_iff, List.nodup_cons] at distinct
    refine ⟨⟨constructor, found⟩, root, below, distinct.2, ?_⟩
    intro name member taken
    rw [List.mem_singleton.mp taken] at member
    exact distinct.1 member
  · rintro ⟨⟨constructor, found⟩, fits, below, distinct, free⟩
    refine ⟨?_, ⟨type, constructor, known, found⟩, ?_⟩
    · rw [nodes_eq, Node.nodes, List.forall_mem_cons]
      exact ⟨⟨type, known, fits⟩, below⟩
    · rw [(storedNames_perm known below).nodup_iff, List.nodup_cons]
      exact ⟨fun member => free _ member (List.mem_singleton_self _), distinct⟩

theorem typed_eq (known : ctx.resolveComponent t.root.info.name = some type) :
    t.typed ctx = ⟨{ t.root.info with type := some type },
      Property.typedAll ctx false t.root.properties⟩ := by
  simp [typed, NodeInfo.typed, NodeInfo.isUnknown, known]

end Tree

namespace Context

/-- The visit that binds, as a part of resolution: it follows the one that assigns types. -/
def binding (ctx : Context) (t : Tree ε) : Tree ε × BindingState :=
  (t.assignTypes ctx []).1.bind ctx.library (t.assignTypes ctx []).2.diagnostics

theorem binding_eq (ctx : Context) (t : Tree ε) :
    ctx.binding t = (t.typed ctx).bind ctx.library (Node.unknowns ctx t.nodes) := by
  rw [binding, Tree.fst_assignTypes, Tree.diagnostics_assignTypes, List.nil_append]

theorem resolve_eq (ctx : Context) (t : Tree ε) :
    ctx.resolve t = ((ctx.binding t).1,
      match (ctx.binding t).2.failure with
      | some error => .error (.lookup error)
      | none => .ok (ctx.binding t).2.diagnostics) := by
  unfold resolve binding
  cases failed : ((t.assignTypes ctx []).1.bind ctx.library
    (t.assignTypes ctx []).2.diagnostics).2.failure <;> simp only [failed]

theorem fst_resolve (ctx : Context) (t : Tree ε) : (ctx.resolve t).1 = (ctx.binding t).1 := by
  rw [resolve_eq]

/-- The visit that binds ends without an ambiguous lookup, and with its reports, if resolution
does. -/
theorem binding_of_resolve {t : Tree ε} {reports : List Diagnostic}
    (h : (ctx.resolve t).2 = .ok reports) :
    (ctx.binding t).2.diagnostics = reports ∧ (ctx.binding t).2.failure = none := by
  rw [resolve_eq] at h
  split at h
  · cases h
  · rename_i failure
    exact ⟨Except.ok.inj h, failure⟩

/-- How an acceptable tree is bound: nothing is reported, and the names that are taken are those of
what is stored. -/
theorem binding_eq_of_acceptable {t : Tree ε} {type : StaticType} (h : t.Acceptable ctx)
    (known : ctx.resolveComponent t.root.info.name = some type) :
    ∃ s : BindingState, ctx.binding t = (t.resolved ctx, s) ∧ s.Clean ∧
      s.claimed.Perm
        (t.root.info.qualifiedName :: Property.claimsAll ctx type t.root.properties) := by
  obtain ⟨⟨constructor, found⟩, admissible⟩ := (Tree.acceptable_iff known).mp h
  have silent : Node.unknowns ctx t.nodes = [] := by
    rw [Node.unknowns_eq_nil_iff]
    intro n member
    obtain ⟨type, known, -⟩ := h.fits n member
    exact ⟨type, known⟩
  have root_typed : ({ t.root.info with type := some type } : NodeInfo).type = some type := rfl
  -- After the root is bound, its name is the only one that is taken.
  obtain ⟨s, bound, clean, claimed⟩ := Property.bindAll_typedAll
    (s := { diagnostics := [], claimed := [t.root.info.qualifiedName], constructors := 1 })
    ⟨rfl, rfl⟩ admissible
  refine ⟨s, ?_, clean, claimed.trans List.perm_append_comm⟩
  simp only [binding_eq, silent, Tree.typed_eq known, Tree.bind,
    BindingState.bindRoot_eq root_typed found, bound, Tree.resolved, known]

/-- What resolution makes of an acceptable tree. -/
theorem resolve_eq_of_acceptable {t : Tree ε} (h : t.Acceptable ctx) :
    ctx.resolve t = (t.resolved ctx, .ok []) := by
  obtain ⟨type, -, known, -⟩ := h.creatable
  obtain ⟨s, bound, clean, -⟩ := binding_eq_of_acceptable h known
  simp only [resolve_eq, bound, clean.failure, clean.diagnostics]

/-- A tree whose resolution reports nothing is acceptable. -/
theorem acceptable_of_resolve {t : Tree ε} (h : (ctx.resolve t).2 = .ok []) : t.Acceptable ctx := by
  obtain ⟨diagnostics, failure⟩ := binding_of_resolve h
  have clean : (ctx.binding t).2.Clean := ⟨diagnostics, failure⟩
  rw [binding_eq] at clean
  -- Reports are never taken back, so there were none before the visit that binds.
  have silent : Node.unknowns ctx t.nodes = [] := by
    have kept := (t.typed ctx).prefix_bind ctx.library (Node.unknowns ctx t.nodes)
    rwa [clean.diagnostics, List.prefix_nil] at kept
  have classes := (Node.unknowns_eq_nil_iff ctx t.nodes).mp silent
  rw [Tree.nodes_eq, Node.nodes, List.forall_mem_cons] at classes
  obtain ⟨⟨type, known⟩, below⟩ := classes
  have root_typed : ({ t.root.info with type := some type } : NodeInfo).type = some type := rfl
  rw [silent, Tree.typed_eq known, Tree.bind] at clean
  rw [Tree.acceptable_iff known]
  cases found : ctx.library.defaultConstructor type with
  | some constructor =>
    rw [BindingState.bindRoot_eq root_typed found] at clean
    exact ⟨⟨constructor, rfl⟩, (Property.admissibleAll_of_clean below clean).2⟩
  | none =>
    -- Without a constructor the root is reported first of all.
    simp only [BindingState.bindRoot, found] at clean
    exact absurd (Property.admissibleAll_of_clean below clean).1
      (BindingState.not_clean_report _ _ _)

/-! ### Outcomes of compilation -/

/-- The three ways in which compilation has an outcome: the source was malformed, resolution
reported something, or a unit was made from the resolved tree. -/
theorem compile_cases {source : Source ε} {outcome : Outcome}
    (h : ctx.compile source = .ok outcome) :
    (source.malformed ≠ [] ∧ outcome = ⟨none, source.malformed⟩) ∨
    (∃ diagnostics, diagnostics ≠ [] ∧ (ctx.resolve source.tree).2 = .ok diagnostics ∧
      outcome = ⟨none, diagnostics⟩) ∨
    ∃ unit, (ctx.resolve source.tree).2 = .ok [] ∧
      (ctx.resolve source.tree).1.emit ctx.options source.name = .ok unit ∧
      outcome = ⟨some unit, []⟩ := by
  unfold compile at h
  split at h
  · rename_i malformed
    exact Or.inl ⟨malformed, (Except.ok.inj h).symm⟩
  · split at h
    · cases h
    · rename_i tree diagnostics resolved
      rw [resolved]
      split at h
      · rename_i reported
        exact Or.inr (Or.inl ⟨diagnostics, reported, rfl, (Except.ok.inj h).symm⟩)
      · rename_i silent
        obtain rfl : diagnostics = [] := Decidable.not_not.mp silent
        cases emitted : tree.emit ctx.options source.name with
        | error failure =>
          rw [emitted] at h
          cases h
        | ok unit =>
          rw [emitted] at h
          exact Or.inr (Or.inr ⟨unit, rfl, rfl, (Except.ok.inj h).symm⟩)

/-- A unit is made from a tree that was resolved without a report. -/
theorem of_compile {source : Source ε} {unit : CompiledUnit} {reports : List Diagnostic}
    (h : ctx.compile source = .ok ⟨some unit, reports⟩) :
    (ctx.resolve source.tree).2 = .ok [] ∧
      (ctx.resolve source.tree).1.emit ctx.options source.name = .ok unit := by
  rcases compile_cases h with ⟨-, impossible⟩ | ⟨_, -, -, impossible⟩ |
      ⟨made, silent, emitted, same⟩
  · cases impossible
  · cases impossible
  · cases same
    exact ⟨silent, emitted⟩

/-- An outcome with a unit has no report. -/
theorem exists_compile {source : Source ε}
    (made : ((ctx.compile source).toOption.bind (·.unit)).isSome = true) :
    ∃ unit, ctx.compile source = .ok ⟨some unit, []⟩ := by
  cases compiled : ctx.compile source with
  | error failure =>
    rw [compiled] at made
    cases made
  | ok outcome =>
    rw [compiled] at made
    rcases compile_cases compiled with ⟨-, rfl⟩ | ⟨diagnostics, -, -, rfl⟩ | ⟨unit, -, -, rfl⟩
    · cases made
    · cases made
    · exact ⟨unit, rfl⟩

theorem isSome_unit_iff {source : Source ε} {outcome : Outcome}
    (h : ctx.compile source = .ok outcome) : outcome.unit.isSome ↔ outcome.diagnostics = [] := by
  rcases compile_cases h with ⟨malformed, rfl⟩ | ⟨diagnostics, reported, -, rfl⟩ | ⟨unit, -, -, rfl⟩
  · simpa using malformed
  · simpa using reported
  · simp

theorem compile_of_malformed {source : Source ε} (malformed : source.malformed ≠ []) :
    ctx.compile source = .ok ⟨none, source.malformed⟩ :=
  if_pos malformed

/-- **Exact acceptance.** Resolution ends without a report exactly for the acceptable trees. An
outcome of compilation has a unit exactly when it has no report, and a malformed source has what is
wrong with its text as its only outcome. -/
theorem accepts_iff_acceptable (ctx : Context) (source : Source ε) :
    ((ctx.resolve source.tree).2 = .ok [] ↔ source.tree.Acceptable ctx) ∧
    (∀ outcome, ctx.compile source = .ok outcome →
      (outcome.unit.isSome ↔ outcome.diagnostics = [])) ∧
    (source.malformed ≠ [] → ctx.compile source = .ok ⟨none, source.malformed⟩) := by
  refine ⟨⟨acceptable_of_resolve, fun h => ?_⟩, fun _ => isSome_unit_iff, compile_of_malformed⟩
  rw [resolve_eq_of_acceptable h]

end Context

/-! ### A sample

A window with two values, a list and a reference; it hands out its panel, in which a button is
created. -/

namespace Sample

/-- The class of the window. One of its setters yields a value. -/
def window : ClassEntry where
  name := .topLevel "JWindow"
  constructors := [[]]
  methods :=
    [⟨"setTitle", [.ofClass "String"], .void⟩, ⟨"setWidth", [.primitive .double], .primitive .int⟩,
      ⟨"getPane", [], .ofClass "JPanel"⟩, ⟨"addMark", [.primitive .int], .void⟩]

/-- The class of the panel, which cannot be created. -/
def panel : ClassEntry where
  name := .topLevel "JPanel"

/-- The class of the button. -/
def button : ClassEntry where
  name := .topLevel "JButton"
  superclass := some (.topLevel "JPanel")
  constructors := [[]]
  methods := [⟨"setText", [.ofClass "String"], .void⟩, ⟨"setIcon", [.ofClass "Icon"], .void⟩]

/-- The library of the three classes. -/
def registry : Registry := [window, panel, button].foldl Registry.add .empty

/-- The library with default options. -/
def context : Context := ⟨registry.library, {}⟩

/-- The beginning of a line. -/
def line (n : Nat) : Span := ⟨n, 1, 1⟩

/-- What is in the window, in order. -/
def items : List (Item (Literal × Span)) :=
  [⟨0, "title", line 2, .scalar (.string "Hi", line 2)⟩,
    ⟨0, "width", line 3, .scalar (.int 3, line 3)⟩,
    ⟨0, "pane", line 4, .node "panel"⟩,
    ⟨1, "corner", line 5, .node "button"⟩,
    ⟨2, "text", line 6, .scalar (.string "Go", line 6)⟩,
    ⟨2, "icon", line 7, .scalar (.null, line 7)⟩,
    ⟨0, "mark", line 8, .list [(.int 1, line 8), (.char 'x', line 9)]⟩,
    ⟨0, "help", line 10, .reference "button"⟩]

/-- The window with all that is in it. -/
def tree : Tree LiteralExpr := .ofLiterals "window" (line 1) items

theorem isFresh_tree : tree.IsFresh := ⟨_, _, _, rfl⟩

/-- The window as a source. -/
def source : Source LiteralExpr where
  name := "Main"
  tree := tree

/-- Nothing is reported on the window. -/
theorem resolve_tree : (context.resolve tree).2 = .ok [] := by
  have silent : (context.resolve tree).2.toOption = some [] := by decide +kernel
  cases resolved : (context.resolve tree).2 with
  | error failure =>
    rw [resolved] at silent
    cases silent
  | ok diagnostics =>
    rw [resolved] at silent
    cases silent
    rfl

/-- The window makes a unit. -/
theorem exists_compile_source : ∃ unit, context.compile source = .ok ⟨some unit, []⟩ :=
  Context.exists_compile (by decide +kernel)

/-- The window is acceptable since it is accepted; its outcome has a unit and no report, unless its
text is malformed. -/
theorem accepts_window :
    tree.Acceptable context ∧
    (∃ outcome, context.compile source = .ok outcome ∧ outcome.unit.isSome ∧
      outcome.diagnostics = []) ∧
    context.compile { source with malformed := [⟨line 1, .malformed "unclosed"⟩] } =
      .ok ⟨none, [⟨line 1, .malformed "unclosed"⟩]⟩ := by
  refine ⟨(context.accepts_iff_acceptable source).1.mp resolve_tree, ?_, ?_⟩
  · obtain ⟨unit, compiled⟩ := exists_compile_source
    exact ⟨_, compiled, rfl, ((context.accepts_iff_acceptable source).2.1 _ compiled).mp rfl⟩
  · exact (context.accepts_iff_acceptable
      { source with malformed := [⟨line 1, .malformed "unclosed"⟩] }).2.2 (by simp)

end Sample

end Componentry
