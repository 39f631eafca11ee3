import Componentry.Bytecode.Emitter
import Componentry.Tree.Fields

/-!
# Code of a tree

The initializer of a unit creates and configures the objects of a tree. Every node has a local slot,
numbered in pre-order. A node is obtained, stored in its slot and, if it was created, in its field;
then its properties follow in order, nested nodes in their place. A node or property that is not
bound has no code.

## Main definitions

* `CodeContext` is the unit's identity with its fields
* `NodeInfo.obtain` is the code that obtains a node
* `Tree.initializer` is the code of the whole tree
-/

namespace Componentry

/-- What the code of a tree refers to: the unit and its fields. -/
structure CodeContext where
  unit : Fingerprint
  fields : FieldTable

/-- Pops into the field with the given name. -/
def CodeContext.store (cx : CodeContext) (name : String) : Directive :=
  match cx.fields[name]? with
  | some type => .instruction (.setStatic (.ofField cx.unit name) (name ++ ": " ++ type.text))
  | none => .abort (.missingField name)

/-- Calls a method and drops its result, if it has one. -/
def Method.callAndDrop (m : Method) : List Directive :=
  .instruction (.callMethod m) :: if m.returnsValue then [.instruction .pop] else []

/-- The code that obtains the object of a node and stores it. The node has the last of the slots
listed in `slots`, which names the nodes that have slots. -/
def NodeInfo.obtain (cx : CodeContext) (slots : List Nat) (node : NodeInfo) : List Directive :=
  let slot := slots.length - 1
  match node.binding, node.parent with
  | .constructor k, none =>
    [.instruction (.new k), .instruction (.setLocal slot), .instruction (.getLocal slot),
      cx.store node.qualifiedName]
  | .constructor k, some _ =>
    [.instruction (.new k), .instruction .dup, cx.store node.qualifiedName,
      .instruction (.setLocal slot)]
  | .getter m, some parent =>
    match slots.idxOf? parent with
    | some owner =>
      [.instruction (.getLocal owner), .instruction (.callMethod m), .instruction (.setLocal slot)]
    | none => [.abort (.internal s!"node {parent} has no local slot")]
  | .getter _, none =>
    [.abort (.internal s!"root node '{node.qualifiedName}' cannot be obtained through a getter")]
  | .unbound, _ => [.abort (.unboundNode node.qualifiedName)]

/-- The code of a node around the code of its properties. -/
def NodeInfo.enclose (cx : CodeContext) (slots : List Nat) (node : NodeInfo)
    (body : List Directive) : List Directive :=
  match node.type with
  | none => [.abort (.unboundNode node.qualifiedName)]
  | some type =>
    .enter node.name type :: .line node.span.line :: node.obtain cx slots
      ++ body ++ [.leave (slots.length - 1)]

variable {ε : Type} [Expression ε]

/-- Leaves the value of an expression on the stack. -/
def Expression.code (e : ε) : List Directive :=
  [.line (Expression.span e).line,
    match Expression.load e with
    | .ok i => .instruction i
    | .error failure => .abort failure]

namespace PropertyInfo

/-- Passes a value to a setter, after storing it in the property's field. -/
def scalarCode (cx : CodeContext) (slot : Nat) (info : PropertyInfo) (value : ε) : List Directive :=
  match info.binding with
  | .setter m =>
    .instruction (.getLocal slot) :: Expression.code value
      ++ [.instruction .dup, cx.store info.qualifiedName] ++ m.callAndDrop
  | .unbound | .adders _ => [.abort (.unboundProperty info.qualifiedName)]

/-- Passes an item to its adder. -/
def itemCode (slot : Nat) (info : PropertyInfo) (item : ε) : Option Method → List Directive
  | some m => .instruction (.getLocal slot) :: Expression.code item ++ m.callAndDrop
  | none => [.abort (.unboundProperty info.qualifiedName)]

/-- Passes items to their adders, in order. -/
def itemsCode (slot : Nat) (info : PropertyInfo) : List ε → List (Option Method) → List Directive
  | item :: items, m :: methods => info.itemCode slot item m ++ info.itemsCode slot items methods
  | _, _ => []

/-- Passes the items of a list to their adders, of which there must be as many. -/
def listCode (slot : Nat) (info : PropertyInfo) (items : List ε) : List Directive :=
  match info.binding with
  | .adders methods =>
    if items.length = methods.length then info.itemsCode slot items methods
    else
      [.abort (.internal
        s!"'{info.qualifiedName}' has {items.length} items but {methods.length} adders")]
  | .unbound | .setter _ => [.abort (.unboundProperty info.qualifiedName)]

end PropertyInfo

namespace Property

mutual

/-- The code of a property of the node in `slot`, when the nodes in `slots` have slots. -/
def code (cx : CodeContext) (slot : Nat) (slots : List Nat) : Property ε → List Directive
  | scalar info value => .line info.span.line :: info.scalarCode cx slot value
  | list info items => .line info.span.line :: info.listCode slot items
  | nested info node properties =>
    .line info.span.line :: node.enclose cx (slots ++ [node.index])
      (codeAll cx slots.length (slots ++ [node.index]) properties)
  | reference info _ => [.line info.span.line]

/-- The code of properties, in order; each nested node takes up new slots. -/
def codeAll (cx : CodeContext) (slot : Nat) (slots : List Nat) : List (Property ε) → List Directive
  | [] => []
  | p :: rest => p.code cx slot slots ++ codeAll cx slot (slots ++ p.indices) rest

end

end Property

/-- The code that creates and configures the objects of a tree. -/
def Tree.initializer (cx : CodeContext) (t : Tree ε) : List Directive :=
  let root := t.root.info
  .line root.span.line :: root.enclose cx [root.index]
      (Property.codeAll cx 0 [root.index] t.root.properties)
    ++ [.instruction .returnVoid]

/-- The code that calls the initializer of a unit. -/
def entryPoint (unit : Fingerprint) (initializer : String) : List Directive :=
  [.instruction (.call (.ofProcedure unit initializer) initializer 0), .instruction .returnVoid]

end Componentry
