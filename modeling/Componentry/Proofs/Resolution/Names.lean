import Componentry.Proofs.Resolution.Steps
import Componentry.Proofs.Tree.Preorder

/-!
# Names of stored things

What is stored in a field has a name that nothing else may have: the root, single values, and nested
nodes that their owners do not hand out. The names are listed twice: along the tree, as they are
claimed, and for each node by itself.

## Main definitions

* `Property.claims` — the names in a property, along the tree
* `Tree.storedNames` — the names of a tree, for each node by itself
* `BindingState.Balanced` — as many names are claimed as constructors and setters are counted

## Main results

* `Property.claimsAll_perm` — both lists hold the same names
* `Tree.balanced_bind` — the counts of a visit add up to the names that it claims
-/

namespace Componentry

variable {ε : Type} {ctx : Context}

namespace Property

/-- The name under which a property of an owner of the given type is stored in a field: that of a
single value, or that of a node which the owner does not hand out. -/
def storedName? (ctx : Context) (owner : StaticType) : Property ε → Option String
  | scalar info _ => some info.qualifiedName
  | nested info node _ =>
    match ctx.resolveComponent node.name with
    | some type =>
      if ctx.library.handsOut owner info.key type then none else some node.qualifiedName
    | none => none
  | list _ _ | reference _ _ => none

mutual

/-- The names stored for a property of an owner of the given type and for the nodes in it. -/
def claims (ctx : Context) (owner : StaticType) : Property ε → List String
  | scalar info value => ((scalar info value).storedName? ctx owner).toList
  | nested info node properties =>
    ((nested info node properties).storedName? ctx owner).toList ++
      match ctx.resolveComponent node.name with
      | some type => claimsAll ctx type properties
      | none => []
  | list _ _ | reference _ _ => []

/-- The names stored for a list of properties and for the nodes in them. -/
def claimsAll (ctx : Context) (owner : StaticType) : List (Property ε) → List String
  | [] => []
  | p :: rest => p.claims ctx owner ++ claimsAll ctx owner rest

end

theorem claims_nested {info : PropertyInfo} {node : NodeInfo} {properties : List (Property ε)}
    {owner type : StaticType} (known : ctx.resolveComponent node.name = some type) :
    (nested info node properties).claims ctx owner =
      (if ctx.library.handsOut owner info.key type then [] else [node.qualifiedName]) ++
        claimsAll ctx type properties := by
  simp only [claims, storedName?, known]
  split <;> rfl

end Property

/-- The names under which the properties of a node are stored. -/
def Node.storedNames (ctx : Context) (n : Node ε) : List String :=
  match ctx.resolveComponent n.info.name with
  | some type => n.properties.filterMap (·.storedName? ctx type)
  | none => []

/-- The names of all that is stored in a field: the root, nested nodes that are not handed out, and
single values. -/
def Tree.storedNames (ctx : Context) (t : Tree ε) : List String :=
  t.root.info.qualifiedName :: t.nodes.flatMap (·.storedNames ctx)

namespace Property

mutual

theorem claims_perm :
    ∀ {owner : StaticType} {p : Property ε},
      (∀ n ∈ p.nodes, ∃ type, ctx.resolveComponent n.info.name = some type) →
      (p.claims ctx owner).Perm
        ((p.storedName? ctx owner).toList ++ p.nodes.flatMap (·.storedNames ctx))
  | owner, scalar info value, known => by simp [claims, nodes]
  | owner, list info items, known | owner, reference info target, known => by
    simp [claims, storedName?, nodes]
  | owner, nested info node properties, known => by
    rw [nodes, List.forall_mem_cons] at known
    obtain ⟨⟨type, known⟩, below⟩ := known
    rw [claims, nodes, List.flatMap_cons, Node.storedNames]
    simp only [known]
    exact (claimsAll_perm below).append_left _

/-- What is stored for properties, listed for each node by itself. -/
theorem claimsAll_perm :
    ∀ {owner : StaticType} {ps : List (Property ε)},
      (∀ n ∈ nodesAll ps, ∃ type, ctx.resolveComponent n.info.name = some type) →
      (claimsAll ctx owner ps).Perm
        (ps.filterMap (·.storedName? ctx owner) ++ (nodesAll ps).flatMap (·.storedNames ctx))
  | owner, [], known => List.Perm.refl _
  | owner, p :: rest, known => by
    rw [nodesAll, List.forall_mem_append] at known
    have own : (p :: rest).filterMap (·.storedName? ctx owner) =
        (p.storedName? ctx owner).toList ++ rest.filterMap (·.storedName? ctx owner) := by
      rw [List.filterMap_cons]
      cases p.storedName? ctx owner <;> rfl
    rw [claimsAll, own, nodesAll, List.flatMap_append, List.append_assoc]
    refine ((claims_perm known.1).append (claimsAll_perm known.2)).trans ?_
    rw [List.append_assoc]
    refine List.Perm.append_left _ ?_
    rw [← List.append_assoc, ← List.append_assoc]
    exact List.perm_append_comm.append_right _

end

end Property

/-! ### How many names are claimed -/

namespace BindingState

/-- A name was claimed for everything that is bound to a constructor or setter, and for nothing
else. -/
def Balanced (s : BindingState) : Prop := s.claimed.length = s.constructors + s.setters

variable {lib : Library} {owner : StaticType} [Expression ε] {s : BindingState}

theorem Balanced.bindScalar (h : s.Balanced) (info : PropertyInfo) (value : ε) :
    (s.bindScalar lib owner info value).2.2.Balanced := by
  unfold BindingState.bindScalar
  split
  · exact h
  · exact h
  · by_cases taken : info.qualifiedName ∈ s.claimed
    · rw [claim_of_mem taken]
      exact h
    · rw [claim_of_notMem taken]
      exact congrArg (· + 1) h

theorem Balanced.bindItems (h : s.Balanced) (key : String) (items : List ε) :
    (bindItems lib owner key items s).2.2.Balanced := by
  induction items generalizing s with
  | nil => exact h
  | cons item rest ih =>
    unfold BindingState.bindItems
    split
    · exact h
    · exact ih (s := s.report _ _) h
    · exact ih (s := { s with adders := s.adders + 1 }) h

theorem Balanced.bindConstructed (h : s.Balanced) (type : StaticType) (node : NodeInfo) :
    (s.bindConstructed lib type node).2.Balanced := by
  unfold BindingState.bindConstructed
  split
  · exact h
  · by_cases taken : node.qualifiedName ∈ s.claimed
    · rw [claim_of_mem taken]
      exact h
    · rw [claim_of_notMem taken]
      have more : s.claimed.length + 1 = s.constructors + 1 + s.setters := by
        rw [h]
        omega
      exact more

theorem Balanced.bindNode (h : s.Balanced) (key : String) (node : NodeInfo) :
    (s.bindNode lib owner key node).2.Balanced := by
  unfold BindingState.bindNode
  split
  · exact h
  · split
    · exact h
    · exact h
    · exact h.bindConstructed _ node

end BindingState

namespace Property

variable {lib : Library} [Expression ε]

mutual

theorem balanced_bind :
    ∀ (owner : Option StaticType) (p : Property ε) {s : BindingState}, s.Balanced →
      (p.bind lib owner s).2.Balanced
  | none, scalar _ _, _, h | none, list _ _, _, h | _, reference _ _, _, h => h
  | some type, scalar info value, s, h => h.bindScalar info value
  | some type, list info items, s, h => by
    simp only [bind, BindingState.snd_bindList]
    exact h.bindItems info.key items
  | owner, nested info node properties, s, h => by
    have inside := balanced_bindAll node.type properties h
    simp only [bind]
    split
    · exact inside.bindNode info.key node
    · exact inside

/-- Binding properties claims a name for each constructor and setter. -/
theorem balanced_bindAll :
    ∀ (owner : Option StaticType) (ps : List (Property ε)) {s : BindingState}, s.Balanced →
      (bindAll lib owner ps s).2.Balanced
  | _, [], _, h => h
  | owner, p :: rest, s, h => by
    have first := balanced_bind owner p h
    simp only [bindAll]
    split
    · exact first
    · exact balanced_bindAll owner rest first

end

end Property

/-- Binding a tree whose root can be created claims a name for each constructor and setter. -/
theorem Tree.balanced_bind {lib : Library} [Expression ε] {t : Tree ε} {type : StaticType}
    {constructor : Constructor} (typed : t.root.info.type = some type)
    (found : lib.defaultConstructor type = some constructor) (before : List Diagnostic) :
    (t.bind lib before).2.Balanced := by
  simp only [bind, BindingState.bindRoot_eq typed found]
  exact Property.balanced_bindAll _ _ rfl

end Componentry
