import Componentry.Proofs.Execution.Machine
import Componentry.Tree.Basic
import Componentry.Tree.Literal

/-!
# What a tree means

A bound tree tells what is to be done, node by node and property by property: the object of a node
is created and stored, or asked of its owner; then its properties follow in order. A single value is
stored and passed to a setter, items are passed to adders, and a nested node is treated like the
node around it.

## Main definitions

* `LiteralExpr.meaning` — the value that a literal stands for at its type
* `Property.effects`, `Tree.effects` — what is to be done for a property and for a tree
* `Tree.methods` — the methods that a tree is bound to
-/

namespace Componentry

/-- The value that a literal stands for at its type. Constants appear as `hold` tells. -/
def LiteralExpr.meaning (hold : Constant → Constant) (e : LiteralExpr) : Value :=
  match e.value with
  | .bool b => .bool b
  | .null => .null
  | .string s => .constant (hold (.string s))
  | number =>
    match e.type, number.toDouble?, number.toInt? with
    | .primitive .float, some v, _ => .constant (hold (.single v.narrow))
    | .primitive .double, some v, _ => .constant (hold (.double v))
    | _, _, some n => .constant (.int n)
    -- A fraction has no value at any other type.
    | _, _, none => .null

variable {ε : Type}

/-- Items are passed one after the other to their adders. -/
def itemEffects (denote : ε → Value) (object : Value) : List ε → List (Option Method) → List Effect
  | item :: items, some m :: methods =>
    .call m.fingerprint object [denote item] :: itemEffects denote object items methods
  | _, _ => []

/-- How the object of a node in a property of the given owner is obtained. -/
def NodeInfo.effects (unit : Fingerprint) (owner : Value) (start : Nat) (node : NodeInfo) :
    List Effect :=
  match node.binding with
  | .getter m => [.call m.fingerprint owner []]
  | .constructor k =>
    [.create k.owner.fingerprint k.fingerprint [],
      .store (.ofField unit node.qualifiedName) (.outcome start)]
  | .unbound => []

namespace Property

mutual

/-- What is done for a property of an object, after `start` other effects. The first effect of a
nested node yields its object. -/
def effects (denote : ε → Value) (unit : Fingerprint) (object : Value) (start : Nat) :
    Property ε → List Effect
  | scalar info value =>
    match info.binding with
    | .setter m =>
      [.store (.ofField unit info.qualifiedName) (denote value),
        .call m.fingerprint object [denote value]]
    | .unbound | .adders _ => []
  | list info items =>
    match info.binding with
    | .adders methods => itemEffects denote object items methods
    | .unbound | .setter _ => []
  | nested _ node properties =>
    let obtaining := node.effects unit object start
    obtaining ++ effectsAll denote unit (.outcome start) (start + obtaining.length) properties
  | reference _ _ => []

/-- What is done for the properties of an object, in order. -/
def effectsAll (denote : ε → Value) (unit : Fingerprint) (object : Value) (start : Nat) :
    List (Property ε) → List Effect
  | [] => []
  | p :: rest =>
    let first := p.effects denote unit object start
    first ++ effectsAll denote unit object (start + first.length) rest

end

mutual

/-- The methods that a property and the nodes in it are bound to. -/
def methods : Property ε → List Method
  | scalar info _ =>
    match info.binding with
    | .setter m => [m]
    | .unbound | .adders _ => []
  | list info _ =>
    match info.binding with
    | .adders methods => methods.filterMap id
    | .unbound | .setter _ => []
  | nested _ node properties =>
    match node.binding with
    | .getter m => m :: methodsAll properties
    | .unbound | .constructor _ => methodsAll properties
  | reference _ _ => []

/-- The methods that properties and the nodes in them are bound to. -/
def methodsAll : List (Property ε) → List Method
  | [] => []
  | p :: rest => p.methods ++ methodsAll rest

end

end Property

namespace Tree

/-- What is done for a tree: its root is obtained first, and then come its properties. -/
def effects (denote : ε → Value) (unit : Fingerprint) (t : Tree ε) : List Effect :=
  let obtaining := t.root.info.effects unit .null 0
  obtaining ++
    Property.effectsAll denote unit (.outcome 0) obtaining.length t.root.properties

/-- The methods that a tree is bound to. -/
def methods (t : Tree ε) : List Method := Property.methodsAll t.root.properties

end Tree

end Componentry
