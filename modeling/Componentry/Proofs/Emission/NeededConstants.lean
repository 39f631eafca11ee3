import Componentry.Proofs.Bytecode.PoolGrowth
import Componentry.Proofs.Emission.Gapless

/-!
# Constants that a tree needs

What the code of a tree refers to can be told from the tree: the values that are loaded, the methods
and constructors that are called and the fields that are stored.

## Main definitions

* `Expression.constants` — the constant that loading a value refers to, if there is one
* `Property.constants`, `Tree.constants` — the constants that a property or a tree needs

## Main results

* `Property.constants_codeAll` — the code of properties refers to the constants that they need
* `Tree.constants_initializer` — so does the initializer of a tree
* `Tree.constants_of_emit` — the pool of a unit collects what the tree and the entry point need
-/

namespace Componentry

open Directive

variable {ε : Type} [Expression ε]

/-- The constant that loading a value refers to, if there is one. -/
def Expression.constants (e : ε) : List Constant :=
  match Expression.load e with
  | .ok i => i.constants
  | .error _ => []

/-- The constants that a node needs, in the unit with the given fingerprint: a node that is created
is stored in a field. -/
def NodeInfo.constants (unit : Fingerprint) (node : NodeInfo) : List Constant :=
  match node.binding with
  | .constructor k =>
    [.symbol k.owner.fingerprint, .symbol k.fingerprint, .symbol (.ofField unit node.qualifiedName)]
  | .getter m => [.symbol m.fingerprint]
  | .unbound => []

namespace Property

mutual

/-- The constants that a property needs, in the unit with the given fingerprint. -/
def constants (unit : Fingerprint) : Property ε → List Constant
  | scalar info value =>
    match info.binding with
    | .setter m =>
      Expression.constants value ++
        [.symbol (.ofField unit info.qualifiedName), .symbol m.fingerprint]
    | .unbound | .adders _ => []
  | list info items =>
    match info.binding with
    | .adders methods => (items.zip methods).flatMap fun (item, m) =>
      Expression.constants item ++ m.toList.map fun m => .symbol m.fingerprint
    | .unbound | .setter _ => []
  | nested _ node properties => node.constants unit ++ constantsAll unit properties
  | reference _ _ => []

/-- The constants that properties need, in order. -/
def constantsAll (unit : Fingerprint) : List (Property ε) → List Constant
  | [] => []
  | p :: rest => p.constants unit ++ constantsAll unit rest

end

end Property

/-- The constants that the nodes and properties of a tree need. -/
def Tree.constants (unit : Fingerprint) (t : Tree ε) : List Constant :=
  t.root.info.constants unit ++ Property.constantsAll unit t.root.properties

/-! ### Constants of code -/

open Instruction

variable {cx : CodeContext} {slot : Nat} {slots : List Nat}

theorem Expression.constants_eq {e : ε} {i : Instruction} (loaded : Expression.load e = .ok i) :
    Expression.constants e = i.constants := by
  simp [Expression.constants, loaded]

@[simp] theorem Method.constants_dropInstructions (m : Method) :
    allConstants m.dropInstructions = [.symbol m.fingerprint] := by
  unfold dropInstructions
  split <;> rfl

theorem NodeInfo.constants_obtain {node : NodeInfo} (h : Unfailing (node.obtain cx slots)) :
    allConstants (instructions (node.obtain cx slots)) = node.constants cx.unit := by
  rcases of_unfailing_obtain h with ⟨k, type, bound, -, code⟩ | ⟨k, type, parent, bound, -, code⟩ |
    ⟨m, parent, owner, bound, -, -, code⟩
  all_goals
    rw [code, NodeInfo.constants, bound]
    rfl

theorem PropertyInfo.constants_itemsCode {info : PropertyInfo} {adders : List Method}
    {items : List ε}
    (each : List.Forall₂ (fun _ item => ∃ i, Expression.load item = .ok i) adders items) :
    allConstants (instructions (info.itemsCode slot items (adders.map some))) =
      (items.zip (adders.map some)).flatMap fun (item, m) =>
        Expression.constants item ++ m.toList.map fun m => .symbol m.fingerprint := by
  induction each with
  | nil => rfl
  | cons head _ ih =>
    obtain ⟨i, loaded⟩ := head
    simp [itemsCode, instructions_itemCode loaded, Expression.constants_eq loaded, ih,
      Instruction.constants]

namespace Property

mutual

theorem constants_code : ∀ {slot : Nat} {slots : List Nat} {p : Property ε},
    Unfailing (p.code cx slot slots) →
      allConstants (instructions (p.code cx slot slots)) = p.constants cx.unit
  | _, _, scalar info value, h => by
    rw [code, unfailing_line] at h
    obtain ⟨m, i, type, bound, loaded, declared⟩ := PropertyInfo.of_unfailing_scalarCode h
    simp [code, constants, bound, PropertyInfo.instructions_scalarCode bound loaded declared,
      Expression.constants_eq loaded, Instruction.constants, CodeContext.setField]
  | _, _, list info items, h => by
    rw [code, unfailing_line] at h
    obtain ⟨adders, bound, each⟩ := PropertyInfo.of_unfailing_listCode h
    rw [code, instructions_line, PropertyInfo.listCode_eq bound each.length_eq,
      PropertyInfo.constants_itemsCode each, constants, bound]
  | _, slots, nested info node properties, h => by
    rw [code, unfailing_line] at h
    obtain ⟨type, typed, obtained, below⟩ := NodeInfo.of_unfailing_enclose h
    rw [instructions_nested typed, allConstants_append, NodeInfo.constants_obtain obtained,
      constants_codeAll below, constants]
  | _, _, reference _ _, _ => rfl

/-- The code of properties refers to the constants that they need. -/
theorem constants_codeAll : ∀ {slot : Nat} {slots : List Nat} {ps : List (Property ε)},
    Unfailing (codeAll cx slot slots ps) →
      allConstants (instructions (codeAll cx slot slots ps)) = constantsAll cx.unit ps
  | _, _, [], _ => rfl
  | _, _, p :: rest, h => by
    rw [codeAll, unfailing_append] at h
    rw [codeAll, instructions_append, allConstants_append, constants_code h.1,
      constants_codeAll h.2, constantsAll]

end

end Property

/-- The initializer of a tree refers to the constants that the tree needs. -/
theorem Tree.constants_initializer {t : Tree ε} (h : Unfailing (t.initializer cx)) :
    allConstants (instructions (t.initializer cx)) = t.constants cx.unit := by
  rw [initializer, List.cons_append, unfailing_line, unfailing_append] at h
  obtain ⟨type, typed, obtained, below⟩ := NodeInfo.of_unfailing_enclose h.1
  simp [instructions_initializer typed, body, NodeInfo.constants_obtain obtained,
    Property.constants_codeAll below, constants, Instruction.constants]

/-- The symbol that the entry point of a unit refers to. -/
def entryConstants (unit : Fingerprint) (initializer : String) : List Constant :=
  [.symbol (.ofProcedure unit initializer)]

theorem constants_entryPoint (unit : Fingerprint) (initializer : String) :
    allConstants (instructions (entryPoint unit initializer)) = entryConstants unit initializer :=
  rfl

/-- The pool of a unit collects what the tree and the entry point need. -/
theorem Tree.constants_of_emit {t : Tree ε} {options : Options} {name : String}
    {unit : CompiledUnit} (emitted : t.emit options name = .ok unit) :
    unit.constants.constants =
      Constant.collect []
        (t.constants unit.fingerprint ++
          entryConstants unit.fingerprint options.initializerName) := by
  obtain ⟨init, entry, assembled, entered, -, constants, -⟩ := parts_of_emit emitted
  have first := Assembly.constants_run assembled
  have second := Assembly.constants_run entered
  rw [constants_initializer (Assembly.unfailing_of_run assembled)] at first
  rw [constants_entryPoint] at second
  rw [constants, second, Constant.collect_append]
  exact congrArg (Constant.collect · _) first

end Componentry
