import Componentry.Proofs.Emission.Slots
import Componentry.Proofs.Library.Lookup
import Componentry.Proofs.Typing.Verifier

/-!
# Type soundness of the initializer

The verifier accepts the initializer of every unit: with the slots of the nodes at the types of the
nodes, the fields of the unit and the literals of the tree in order.

## Main definitions

* `Property.values`, `Tree.values` — the values of a tree in the order in which they are loaded

## Main results

* `Verifier.of_passes` — what was looked up with the type of a literal accepts the literal
* `Property.verify_codeAll` — the verifier accepts the code of bound properties
* `Registry.initializer_well_typed` — the verifier accepts the compiled initializer
-/

namespace Componentry

/-! ### Values -/

namespace Hierarchy

variable {h : Hierarchy}

theorem converts_refl (type : StaticType) : h.converts type type = true := by
  simp [converts, conversion]

end Hierarchy

namespace LiteralExpr

variable {h : Hierarchy} {stringType : StaticType} {e : LiteralExpr}

/-- A literal that converts to a type takes it, unless both are classes; then it keeps its own. -/
theorem type_adapt_of_converts {target : StaticType} (converts : h.converts e.type target = true) :
    (e.adapt target).type = target ∨
      ∃ sub sup, e.type = .object sub ∧ target = .object sup ∧ (e.adapt target).type = e.type := by
  obtain ⟨value, span, type⟩ := e
  cases type with
  | primitive source =>
    cases target with
    | primitive kind =>
      have widens : (source.conversion kind).isSome := by
        simp only [Hierarchy.converts, Hierarchy.conversion] at converts
        split at converts
        · rename_i same
          cases same
          simp [Primitive.conversion]
        · exact converts
      simp [adapt, widens]
    | void | null | object _ => simp [Hierarchy.converts, Hierarchy.conversion] at converts
  | null =>
    cases target with
    | null | object _ => simp [adapt]
    | void | primitive _ => simp [Hierarchy.converts, Hierarchy.conversion] at converts
  | object sub =>
    cases target with
    | object sup => exact Or.inr ⟨sub, sup, rfl, rfl, rfl⟩
    | void | null | primitive _ => simp [Hierarchy.converts, Hierarchy.conversion] at converts
  | void =>
    cases target with
    | void => simp [adapt]
    | null | primitive _ | object _ => simp [Hierarchy.converts, Hierarchy.conversion] at converts

/-- The instruction for a literal represents the type that the literal takes. -/
theorem exists_load_represents {name : ClassName} (takes : e.value.Takes (.object name) e.type) :
    ∃ i, e.load = .ok i ∧ i.represents (.object name) e.type = true := by
  obtain ⟨value, span, type⟩ := e
  cases takes with
  | bool b => exact ⟨_, rfl, rfl⟩
  | string s kept =>
    obtain rfl := kept name rfl
    exact ⟨_, rfl, decide_eq_true rfl⟩
  | null | object _ => exact ⟨_, rfl, rfl⟩
  | integral whole integral => exact ⟨_, load_of_isIntegral whole rfl integral, integral⟩
  | floating number floating =>
    rcases Primitive.eq_of_isFloating floating with rfl | rfl
    · exact ⟨_, load_of_float number rfl, rfl⟩
    · exact ⟨_, load_of_double number rfl, rfl⟩

end LiteralExpr

namespace Verifier

variable {env : Env}

/-- A literal is accepted where it is passed. -/
theorem accepts_adapt {e : LiteralExpr} {stringType param : StaticType}
    (written : e.IsWritten stringType)
    (converts : env.registry.hierarchy.converts e.type param = true) :
    env.accepts (known (e.adapt param)) param = true := by
  rcases LiteralExpr.type_adapt_of_converts converts with same | ⟨sub, sup, typed, rfl, kept⟩
  · have taken : (known (e.adapt param)).type = param := same
    unfold Env.accepts
    rw [taken, Hierarchy.converts_refl]
    cases param <;> simp
  · -- Null has no class of its own, so the literal is another one.
    have other : e.value ≠ .null := by
      intro null
      rw [LiteralExpr.IsWritten, null, typed] at written
      cases written
    have unchanged : (known (e.adapt (.object sup))).type = e.type := kept
    unfold Env.accepts
    rw [unchanged, converts]
    simp [known, other]

/-- What the verifier needs to know of a value that is passed to a method. -/
theorem of_passes {name : ClassName} (strings : env.registry.stringType = .object name)
    {owner : StaticType} {key : String} {method : Method} {value : LiteralExpr}
    (passed : env.registry.library.Passes (LiteralExpr.IsWritten env.registry.stringType) owner key
      method value) :
    (∃ i, value.load = .ok i ∧ i.represents env.registry.stringType value.type = true) ∧
      env.isReceiver ⟨owner, false⟩ method = true ∧
      env.acceptsAll [known value] method.params = true := by
  obtain ⟨e, written, found, rfl⟩ := passed
  obtain ⟨c, rfl, receives, accepted⟩ := Registry.of_resolveMethod found
  refine ⟨?_, receives, ?_⟩
  · have takes := written.takes_adaptArgument method
    rw [strings] at takes ⊢
    exact LiteralExpr.exists_load_represents takes
  · obtain ⟨param, params, converts, rest, params_eq⟩ := List.forall₂_cons_left_iff.mp accepted
    obtain rfl := List.forall₂_nil_left_iff.mp rest
    have adapted : method.adaptArgument e = e.adapt param := by
      simp [Method.adaptArgument, params_eq]; rfl
    rw [params_eq, adapted, Env.acceptsAll, accepts_adapt written converts]
    rfl

/-! ### Pieces of code -/

/-- The fields that code refers to are among those that the verifier knows. -/
def Env.Knows (env : Env) (cx : CodeContext) : Prop :=
  ∀ name type, cx.fields[name]? = some type → Field.ofDeclaration cx.unit name type ∈ env.fields

variable {cx : CodeContext} {slot : Nat} {owner : StaticType} {stack : List Known}
  {rest : List LiteralExpr} {i : Instruction} {e : LiteralExpr} {m : Method}

/-- A value of the type of a field may be stored in it. -/
theorem step_setField {name : String} {type : StaticType} {v : Known} (knows : env.Knows cx)
    (declared : cx.fields[name]? = some type) (same : v.type = type) :
    step env ⟨v :: stack, rest⟩ (cx.setField name type) = some ⟨stack, rest⟩ := by
  have stores : env.storesIn (.ofField cx.unit name) (name ++ ": " ++ type.text) type = true := by
    rw [Env.storesIn, List.any_eq_true]
    exact ⟨_, knows name type declared, by simp [Field.ofDeclaration]⟩
  simp [CodeContext.setField, step, same, stores]

/-- A value is stored and stays on the stack. -/
theorem verify_store {name : String} {type : StaticType} {v : Known} (knows : env.Knows cx)
    (declared : cx.fields[name]? = some type) (same : v.type = type) :
    verify env ⟨v :: stack, rest⟩ [.dup, cx.setField name type] = some ⟨v :: stack, rest⟩ := by
  have duplicated : step env ⟨v :: stack, rest⟩ .dup = some ⟨v :: v :: stack, rest⟩ := rfl
  simp [verify, duplicated, step_setField knows declared same]

theorem step_of_load (loaded : e.load = .ok i)
    (represents : i.represents env.registry.stringType e.type = true) :
    step env ⟨stack, e :: rest⟩ i = some ⟨known e :: stack, rest⟩ := by
  have accepted : load env ⟨stack, e :: rest⟩ i = some ⟨known e :: stack, rest⟩ := by
    simp [load, loaded, represents, Except.toOption]
  cases i with
  | load _ | pushInt _ | pushNull | pushBool _ => exact accepted
  | pop | dup | getLocal _ | setLocal _ | setStatic _ _ | call _ _ _ | callMethod _ | new _
  | returnVoid =>
    cases represents

/-- The object in a slot and a literal for it are put on the stack. -/
theorem verify_load (placed : env.slots[slot]? = some owner) (loaded : e.load = .ok i)
    (represents : i.represents env.registry.stringType e.type = true) :
    verify env ⟨stack, e :: rest⟩ [.getLocal slot, i] =
      some ⟨known e :: ⟨owner, false⟩ :: stack, rest⟩ := by
  have got :
      step env ⟨stack, e :: rest⟩ (.getLocal slot) = some ⟨⟨owner, false⟩ :: stack, e :: rest⟩ := by
    simp [step, placed]
  simp [verify, got, step_of_load loaded represents]

/-- A call whose result is dropped leaves nothing behind. -/
theorem verify_dropInstructions {v : Known} (receives : env.isReceiver ⟨owner, false⟩ m = true)
    (accepted : env.acceptsAll [v] m.params = true) :
    verify env ⟨v :: ⟨owner, false⟩ :: stack, rest⟩ m.dropInstructions = some ⟨stack, rest⟩ := by
  have one : m.arity = 1 := by
    unfold Method.arity
    match m.params, accepted with
    | [_], _ => rfl
    | _ :: _ :: _, more => simp [Env.acceptsAll] at more
  cases result : m.returnsValue <;>
    simp [verify, Method.dropInstructions, step, one, receives, accepted, result]

/-- A literal is stored and passed to a setter of the object in a slot. -/
theorem verify_scalar {name : String} (knows : env.Knows cx)
    (declared : cx.fields[name]? = some e.type) (placed : env.slots[slot]? = some owner)
    (loaded : e.load = .ok i) (represents : i.represents env.registry.stringType e.type = true)
    (receives : env.isReceiver ⟨owner, false⟩ m = true)
    (accepted : env.acceptsAll [known e] m.params = true) :
    verify env ⟨stack, e :: rest⟩
      ([.getLocal slot, i] ++ ([.dup, cx.setField name e.type] ++ m.dropInstructions)) =
      some ⟨stack, rest⟩ := by
  have stored :
      verify env ⟨known e :: ⟨owner, false⟩ :: stack, rest⟩ [.dup, cx.setField name e.type] =
      some ⟨known e :: ⟨owner, false⟩ :: stack, rest⟩ :=
    verify_store knows declared rfl
  rw [verify_append (verify_load placed loaded represents), verify_append stored,
    verify_dropInstructions receives accepted]

/-- A literal is passed to an adder of the object in a slot. -/
theorem verify_item (placed : env.slots[slot]? = some owner) (loaded : e.load = .ok i)
    (represents : i.represents env.registry.stringType e.type = true)
    (receives : env.isReceiver ⟨owner, false⟩ m = true)
    (accepted : env.acceptsAll [known e] m.params = true) :
    verify env ⟨stack, e :: rest⟩ ([.getLocal slot, i] ++ m.dropInstructions) =
      some ⟨stack, rest⟩ := by
  rw [verify_append (verify_load placed loaded represents),
    verify_dropInstructions receives accepted]

/-- A node may be kept in a slot of its own type. -/
theorem step_setLocal {type : StaticType} {v : Known} (placed : env.slots[slot]? = some type)
    (converts : env.registry.hierarchy.converts v.type type = true) :
    step env ⟨v :: stack, rest⟩ (.setLocal slot) = some ⟨stack, rest⟩ := by
  simp [step, placed, converts]

/-- A node that is created has its own type. -/
theorem step_new {type : StaticType} {k : Constructor}
    (found : env.registry.library.defaultConstructor type = some k) :
    step env ⟨stack, rest⟩ (.new k) = some ⟨⟨type, false⟩ :: stack, rest⟩ := by
  obtain ⟨rfl, none⟩ := Registry.of_defaultConstructor found
  simp [step, Constructor.arity, none, Env.acceptsAll]

/-- The root is created, put in its slot and stored. -/
theorem verify_root {name : String} {type : StaticType} {k : Constructor} (knows : env.Knows cx)
    (declared : cx.fields[name]? = some type) (placed : env.slots[slot]? = some type)
    (found : env.registry.library.defaultConstructor type = some k) :
    verify env ⟨stack, rest⟩ [.new k, .setLocal slot, .getLocal slot, cx.setField name type] =
      some ⟨stack, rest⟩ := by
  have set : step env ⟨⟨type, false⟩ :: stack, rest⟩ (.setLocal slot) = some ⟨stack, rest⟩ :=
    step_setLocal placed (Hierarchy.converts_refl type)
  have got : step env ⟨stack, rest⟩ (.getLocal slot) = some ⟨⟨type, false⟩ :: stack, rest⟩ := by
    simp [step, placed]
  have stored :
      step env ⟨⟨type, false⟩ :: stack, rest⟩ (cx.setField name type) = some ⟨stack, rest⟩ :=
    step_setField knows declared rfl
  simp [verify, step_new found, set, got, stored]

/-- A node is created, stored and put in a slot. -/
theorem verify_constructor {name : String} {type : StaticType} {k : Constructor}
    (knows : env.Knows cx) (declared : cx.fields[name]? = some type)
    (placed : env.slots[slot]? = some type)
    (found : env.registry.library.defaultConstructor type = some k) :
    verify env ⟨stack, rest⟩ [.new k, .dup, cx.setField name type, .setLocal slot] =
      some ⟨stack, rest⟩ := by
  have stored : verify env ⟨⟨type, false⟩ :: stack, rest⟩ [.dup, cx.setField name type] =
      some ⟨⟨type, false⟩ :: stack, rest⟩ :=
    verify_store knows declared rfl
  have set : step env ⟨⟨type, false⟩ :: stack, rest⟩ (.setLocal slot) = some ⟨stack, rest⟩ :=
    step_setLocal placed (Hierarchy.converts_refl type)
  rw [verify, step_new found, Option.bind_some]
  have all := @verify_append _ _ _ _ [.setLocal slot] stored
  simpa [verify, set] using all

/-- A node is asked of its owner and put in a slot to whose type it converts. -/
theorem verify_getter {key : String} {next : Nat} {type : StaticType}
    (placed : env.slots[slot]? = some owner) (room : env.slots[next]? = some type)
    (found : env.registry.library.resolveMethod owner key [] = .ok m)
    (returns : m.returnsValue = true)
    (assignable : env.registry.library.isAssignable m.result type = true) :
    verify env ⟨stack, rest⟩ [.getLocal slot, .callMethod m, .setLocal next] =
      some ⟨stack, rest⟩ := by
  obtain ⟨c, rfl, receives, accepted⟩ := Registry.of_resolveMethod found
  have none : m.params = [] := List.forall₂_nil_left_iff.mp accepted
  have got :
      step env ⟨stack, rest⟩ (.getLocal slot) = some ⟨⟨.object c, false⟩ :: stack, rest⟩ := by
    simp [step, placed]
  have called : step env ⟨⟨.object c, false⟩ :: stack, rest⟩ (.callMethod m) =
      some ⟨⟨m.result, false⟩ :: stack, rest⟩ := by
    simp [step, Method.arity, none, Env.acceptsAll, Env.isReceiver, receives, returns]
  have set : step env ⟨⟨m.result, false⟩ :: stack, rest⟩ (.setLocal next) = some ⟨stack, rest⟩ :=
    step_setLocal room assignable
  simp [verify, got, called, set]

end Verifier

/-! ### Slots -/

theorem of_append_prefix_drop {α : Type} {xs ys l : List α} {n : Nat} (h : xs ++ ys <+: l.drop n) :
    xs <+: l.drop n ∧ ys <+: l.drop (n + xs.length) := by
  obtain ⟨rest, split⟩ := h
  refine ⟨⟨ys ++ rest, by rw [← List.append_assoc, split]⟩, rest, ?_⟩
  rw [← List.drop_drop, ← split, List.append_assoc, List.drop_left]

theorem of_cons_prefix_drop {α : Type} {x : α} {xs l : List α} {n : Nat}
    (h : x :: xs <+: l.drop n) : l[n]? = some x ∧ xs <+: l.drop (n + 1) := by
  rw [← List.singleton_append] at h
  refine ⟨?_, (of_append_prefix_drop h).2⟩
  obtain ⟨rest, split⟩ := h
  have first : (l.drop n)[0]? = some x := by rw [← split]; rfl
  simpa using first

variable {ε : Type}

namespace Property

mutual

/-- The values of a property and of the nodes in it, in the order in which they are loaded. -/
def values : Property ε → List ε
  | scalar _ value => [value]
  | list _ items => items
  | nested _ _ properties => valuesAll properties
  | reference _ _ => []

/-- The values of properties and of the nodes in them, in the order in which they are loaded. -/
def valuesAll : List (Property ε) → List ε
  | [] => []
  | p :: rest => p.values ++ valuesAll rest

end

end Property

/-- The values of a tree, in the order in which they are loaded. -/
def Tree.values (t : Tree ε) : List ε := Property.valuesAll t.root.properties

open Verifier

variable {env : Env} {cx : CodeContext} {name : ClassName}

/-- The items of a list may be passed to their adders. -/
theorem PropertyInfo.verify_itemsCode {info : PropertyInfo} {owner : StaticType} {key : String}
    {slot : Nat} (strings : env.registry.stringType = .object name)
    {methods : List Method} {items : List LiteralExpr}
    (passed : List.Forall₂ (env.registry.library.Passes
      (LiteralExpr.IsWritten env.registry.stringType) owner key) methods items)
    (placed : env.slots[slot]? = some owner) (stack : List Known) (rest : List LiteralExpr) :
    verify env ⟨stack, items ++ rest⟩
      (Directive.instructions (info.itemsCode slot items (methods.map some))) =
        some ⟨stack, rest⟩ := by
  induction passed with
  | nil => rfl
  | cons head _ ih =>
    obtain ⟨⟨i, loaded, represents⟩, receives, accepted⟩ := of_passes strings head
    rw [List.map_cons, itemsCode, Directive.instructions_append, instructions_itemCode loaded,
      List.cons_append, verify_append (verify_item placed loaded represents receives accepted)]
    exact ih

/-- The object of a nested node may be kept in its slot and stored in its field. -/
theorem NodeInfo.verify_obtain {node : NodeInfo} {owner type : StaticType} {key : String}
    {parent slot : Nat} {slots : List Nat} (knows : env.Knows cx)
    (obtained : env.registry.library.Obtains owner key type node.binding)
    (typed : node.type = some type) (inside : node.parent = some parent)
    (declared : cx.Declares node.declaration) (at_slot : slots.idxOf? parent = some slot)
    (placed : env.slots[slot]? = some owner) (room : env.slots[slots.length]? = some type)
    (stack : List Known) (rest : List LiteralExpr) :
    verify env ⟨stack, rest⟩ (Directive.instructions (node.obtain cx (slots ++ [node.index]))) =
      some ⟨stack, rest⟩ := by
  generalize bound : node.binding = binding at obtained
  cases obtained with
  | constructor found =>
    rw [obtain_constructor bound typed inside declared]
    exact verify_constructor knows (field_of_constructor bound typed inside declared) room found
  | getter found returns assignable =>
    rw [obtain_getter bound inside at_slot]
    exact verify_getter placed room found returns assignable

namespace Property

mutual

theorem verify_code (strings : env.registry.stringType = .object name) (knows : env.Knows cx) :
    ∀ {owner : StaticType} {index slot : Nat} {slots : List Nat} {p : Property LiteralExpr},
      p.Bound env.registry.library (LiteralExpr.IsWritten env.registry.stringType) index owner →
      cx.Declares p.declarations → slots.idxOf? index = some slot → (slots ++ p.indices).Nodup →
      env.slots[slot]? = some owner →
      p.nodes.map (·.info.type) <+: (env.slots.map some).drop slots.length →
      ∀ stack rest,
        verify env ⟨stack, p.values ++ rest⟩ (Directive.instructions (p.code cx slot slots)) =
        some ⟨stack, rest⟩
  | _, _, _, _, scalar info value, ⟨method, bound, passed⟩, declared, _, _, placed, _ => by
    obtain ⟨⟨i, loaded, represents⟩, receives, accepted⟩ := of_passes strings passed
    simp only [declarations, bound] at declared
    intro stack rest
    rw [code, Directive.instructions_line,
      PropertyInfo.instructions_scalarCode bound loaded declared.field]
    exact verify_scalar knows declared.field placed loaded represents receives accepted
  | _, _, _, _, list info items, ⟨methods, bound, passed⟩, _, _, _, placed, _ => by
    intro stack rest
    rw [code, Directive.instructions_line, PropertyInfo.listCode_eq bound passed.length_eq]
    exact PropertyInfo.verify_itemsCode strings passed placed stack rest
  | owner, _, slot, slots, nested info node properties, ⟨_, inside, type, typed, obtained, below⟩,
    declared, at_slot, fresh, placed, types => by
    intro stack rest
    rw [declarations, CodeContext.declares_append] at declared
    rw [indices, ← List.singleton_append, ← List.append_assoc] at fresh
    -- The slots from the next one on are those of the nodes ahead, and this node is the first of
    -- them.
    rw [nodes, List.map_cons, typed] at types
    obtain ⟨here, types⟩ := of_cons_prefix_drop types
    have room : env.slots[slots.length]? = some type := by simpa using here
    have first :=
      NodeInfo.verify_obtain knows obtained typed inside declared.1 at_slot placed room stack
        (valuesAll properties ++ rest)
    have body := verify_codeAll strings knows below declared.2 (idxOf?_append_self fresh) fresh room
      (by rwa [List.length_append]) stack rest
    rw [instructions_nested typed, values, verify_append first, body]
  | _, _, _, _, reference _ _, _, _, _, _, _, _ => fun _ _ => rfl

/-- The verifier accepts the code of bound properties of the object in a slot. -/
theorem verify_codeAll (strings : env.registry.stringType = .object name) (knows : env.Knows cx) :
    ∀ {owner : StaticType} {index slot : Nat} {slots : List Nat} {ps : List (Property LiteralExpr)},
      BoundAll env.registry.library (LiteralExpr.IsWritten env.registry.stringType) index owner ps →
      cx.Declares (declarationsAll ps) → slots.idxOf? index = some slot →
      (slots ++ indicesAll ps).Nodup → env.slots[slot]? = some owner →
      (nodesAll ps).map (·.info.type) <+: (env.slots.map some).drop slots.length →
      ∀ stack rest, verify env ⟨stack, valuesAll ps ++ rest⟩
        (Directive.instructions (codeAll cx slot slots ps)) = some ⟨stack, rest⟩
  | _, _, _, _, [], _, _, _, _, _, _ => fun _ _ => rfl
  | _, _, slot, slots, p :: ps, ⟨head, tail⟩, declared, at_slot, fresh, placed, types => by
    intro stack rest
    rw [declarationsAll, CodeContext.declares_append] at declared
    rw [indicesAll, ← List.append_assoc] at fresh
    rw [nodesAll, List.map_append] at types
    obtain ⟨first, others⟩ := of_append_prefix_drop types
    -- As many slots come into use for the first property as it has nodes.
    have lengths :
        slots.length + (p.nodes.map (·.info.type)).length = (slots ++ p.indices).length := by
      rw [List.length_append, ← map_index_nodes, List.length_map, List.length_map]
    rw [lengths] at others
    rw [codeAll, Directive.instructions_append, valuesAll, List.append_assoc,
      verify_append (verify_code strings knows head declared.1 at_slot
        (List.nodup_append.mp fresh).1 placed first stack _)]
    exact verify_codeAll strings knows tail declared.2
      (idxOf?_append_of_eq_some at_slot p.indices) fresh
      placed others stack rest

end

end Property

/-- The verifier accepts the code of a bound tree. -/
theorem Tree.Bound.verify_body {t : Tree LiteralExpr}
    (h : t.Bound env.registry.library (LiteralExpr.IsWritten env.registry.stringType))
    (strings : env.registry.stringType = .object name) {unit : Fingerprint}
    (knows : env.Knows ⟨unit, t.fields⟩) (types : env.slots.map some = t.nodes.map (·.info.type)) :
    verify env ⟨[], t.values⟩ (t.body ⟨unit, t.fields⟩) = some {} := by
  obtain ⟨type, constructor, typed, bound, found, below⟩ := h.root
  have declared := Tree.declares_fields h.nodup_names unit
  rw [declarations, CodeContext.declares_append] at declared
  rw [nodes_eq, Node.nodes, List.map_cons, typed] at types
  have all : some type :: (Property.nodesAll t.root.properties).map (·.info.type) <+:
      (env.slots.map some).drop 0 := by
    rw [types]
    exact List.prefix_refl _
  obtain ⟨here, others⟩ := of_cons_prefix_drop all
  have room : env.slots[0]? = some type := by simpa using here
  have first : verify env ⟨[], t.values⟩ (Directive.instructions
      (t.root.info.obtain ⟨unit, t.fields⟩ [t.root.info.index])) = some ⟨[], t.values⟩ := by
    rw [NodeInfo.obtain_root bound typed h.parent_root declared.1]
    exact verify_root knows (NodeInfo.field_of_root typed h.parent_root declared.1) room found
  have rest :=
    Property.verify_codeAll strings knows below declared.2 (idxOf?_singleton _) h.nodup_indices
      room others [] []
  rw [List.append_nil] at rest
  exact (verify_append first).trans rest

/-- The verifier knows the fields that the code of a tree refers to if it knows those of the
unit. -/
theorem Verifier.knows_of_emit {t : Tree LiteralExpr} {unit : CompiledUnit} (registry : Registry)
    (slots : List StaticType) (fields : unit.fields =
      t.fields.toList.map fun (name, type) => .ofDeclaration unit.fingerprint name type) :
    Env.Knows ⟨registry, slots, unit.fields⟩ ⟨unit.fingerprint, t.fields⟩ := by
  intro name type declared
  rw [fields]
  exact List.mem_map.mpr ⟨(name, type),
    Std.TreeMap.mem_toList_iff_getElem?_eq_some.mpr declared, rfl⟩

/-- **Type soundness of the initializer.** Let a tree of literals be compiled to a unit, for a
library of registered classes whose strings are objects. The bytes of the initializer are those of
the code of the resolved tree; its local slots are the nodes of the tree, in pre-order, at their
types; and the verifier accepts its code with these slots, the fields of the unit and the literals
of the tree. -/
theorem Registry.initializer_well_typed (r : Registry) (name : ClassName)
    (strings : r.stringType = .object name) (options : Options) (source : Source LiteralExpr)
    (fresh : source.tree.IsFresh) (unit : CompiledUnit) (reports : List Diagnostic)
    (compiled : Context.compile ⟨r.library, options⟩ source = .ok ⟨some unit, reports⟩) :
    let tree := (Context.resolve ⟨r.library, options⟩ source.tree).1
    let code := tree.body ⟨unit.fingerprint, tree.fields⟩
    ∃ init, unit.procedure? options.initializerName = some init ∧
      (init.code.operations? unit.constants).map (List.map Prod.snd) =
        some ((code ++ [Instruction.returnVoid]).map (·.operation unit.constants.held)) ∧
      init.locals.map (fun range => (range.name, some range.type)) =
        tree.nodes.map (fun n => (n.info.name, n.info.type)) ∧
      verify ⟨r, init.locals.map (·.type), unit.fields⟩ ⟨[], tree.values⟩ code = some ⟨[], []⟩ := by
  intro tree code
  obtain ⟨silent, emitted⟩ := Context.of_compile compiled
  have bound := Tree.bound_of_resolve fresh silent
  obtain ⟨type, _, typed, -⟩ := bound.root
  obtain ⟨init, assembled, found, extended, fields⟩ := Tree.of_emit emitted
  have nodes := bound.locals_of_assemble assembled
  have types : (init.locals.map (·.type)).map some = tree.nodes.map (·.info.type) := by
    have second := congrArg (List.map Prod.snd) nodes
    simpa only [List.map_map, Function.comp_def] using second
  refine ⟨_, found, ?_, nodes, ?_⟩
  · rw [← Tree.instructions_initializer typed]
    exact assemble_operations_snd assembled extended
  · exact bound.verify_body strings (knows_of_emit r (init.locals.map (·.type)) fields) types

/-- The verifier accepts the initializer of the window. -/
theorem Sample.verify_window :
    ∃ unit init, registry.stringType = .ofClass "String" ∧ tree.IsFresh ∧
      context.compile source = .ok ⟨some unit, []⟩ ∧ unit.procedure? "init" = some init ∧
      verify ⟨registry, init.locals.map (·.type), unit.fields⟩ ⟨[], (context.resolve tree).1.values⟩
        ((context.resolve tree).1.body ⟨unit.fingerprint, (context.resolve tree).1.fields⟩) =
          some ⟨[], []⟩ := by
  obtain ⟨unit, compiled⟩ := exists_compile_source
  obtain ⟨init, found, -, -, accepted⟩ :=
    registry.initializer_well_typed _ rfl {} source isFresh_tree unit [] compiled
  exact ⟨unit, init, rfl, isFresh_tree, compiled, found, accepted⟩

end Componentry
