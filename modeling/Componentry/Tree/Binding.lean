import Componentry.Tree.Basic

/-!
# Bindings

After the nodes of a tree have types, every node is bound to the way its object is obtained, and
every property to the method that applies it. Whatever is stored in a field of the unit claims the
field's name, and a name can be claimed once. A lookup without result is reported and passed over;
an ambiguous lookup ends the visit where it stands.

## Main definitions

* `BindingState` is what is known after part of a tree has been visited
* `Library.lookup` separates missing members from ambiguous ones
* `BindingState.bindScalar`, `bindItems`, `bindNode` bind one property or node
* `Tree.bind` visits all nodes, those in a property before the property itself
-/

namespace Componentry

/-- The state of a visit that binds. -/
structure BindingState where
  diagnostics : List Diagnostic
  /-- The field names that are taken. -/
  claimed : List String := []
  constructors : Nat := 0
  getters : Nat := 0
  setters : Nat := 0
  adders : Nat := 0
  /-- The ambiguous lookup at which the visit ended. -/
  failure : Option LookupError := none
  deriving DecidableEq

/-- Looks up a method. A missing method is no failure. -/
def Library.lookup (lib : Library) (owner : StaticType) (name : String) (args : List StaticType) :
    Except LookupError (Option Method) :=
  match lib.resolveMethod owner name args with
  | .ok method => .ok (some method)
  | .error error => if error.isNotFound then .ok none else .error error

/-- The getter that hands out an object of the given type for a property: it yields a value that may
be stored as one. -/
def Library.lookupGetter (lib : Library) (owner : StaticType) (key : String) (type : StaticType) :
    Except LookupError (Option Method) :=
  (lib.lookup owner (Naming.getter key) []).map fun found =>
    found.filter fun method => method.returnsValue && lib.isAssignable method.result type

/-- The expression where the first argument of a method is expected. -/
def Method.adaptArgument {ε : Type} [Expression ε] (method : Method) (e : ε) : ε :=
  match method.params.head? with
  | some param => Expression.adapt param e
  | none => e

namespace BindingState

/-- Adds a report. -/
def report (s : BindingState) (span : Span) (problem : Problem) : BindingState :=
  { s with diagnostics := s.diagnostics ++ [⟨span, problem⟩] }

/-- The visit ends with an ambiguous lookup. -/
def fail (s : BindingState) (error : LookupError) : BindingState := { s with failure := some error }

/-- Claims a field name; tells whether it was free, and reports it if not. -/
def claim (s : BindingState) (name : String) (span : Span) : Bool × BindingState :=
  if name ∈ s.claimed then (false, s.report span (.duplicateField name))
  else (true, { s with claimed := name :: s.claimed })

variable {ε : Type} [Expression ε]

/-- Binds a property with a single value to a setter, which claims a field for the value. -/
def bindScalar (lib : Library) (owner : StaticType) (info : PropertyInfo) (value : ε)
    (s : BindingState) : PropertyInfo × ε × BindingState :=
  match lib.lookup owner (Naming.setter info.key) [Expression.type value] with
  | .error error => (info, value, s.fail error)
  | .ok none =>
    ({ info with binding := .unbound }, value,
      s.report info.span (.unknownProperty info.key owner.text))
  | .ok (some method) =>
    match s.claim info.qualifiedName info.span with
    | (false, s) => ({ info with binding := .unbound }, value, s)
    | (true, s) =>
      ({ info with binding := .setter method }, method.adaptArgument value,
        { s with setters := s.setters + 1 })

/-- Finds an adder for each item of a list; items without one are reported at their own place. After
an ambiguous lookup the remaining items are left alone. -/
def bindItems (lib : Library) (owner : StaticType) (key : String) :
    List ε → BindingState → List ε × List (Option Method) × BindingState
  | [], s => ([], [], s)
  | item :: rest, s =>
    match lib.lookup owner (Naming.adder key) [Expression.type item] with
    | .error error => (item :: rest, [], s.fail error)
    | .ok none =>
      let s := s.report (Expression.span item) (.unknownProperty key owner.text)
      let (rest, methods, s) := bindItems lib owner key rest s
      (item :: rest, none :: methods, s)
    | .ok (some method) =>
      let s := { s with adders := s.adders + 1 }
      let (rest, methods, s) := bindItems lib owner key rest s
      (method.adaptArgument item :: rest, some method :: methods, s)

/-- Binds a property with a list of values to adders. Its binding is kept if the visit ended
inside. -/
def bindList (lib : Library) (owner : StaticType) (info : PropertyInfo) (items : List ε)
    (s : BindingState) : PropertyInfo × List ε × BindingState :=
  let (items, methods, s) := bindItems lib owner info.key items s
  match s.failure with
  | some _ => (info, items, s)
  | none => ({ info with binding := .adders methods }, items, s)

/-- Binds a node that can only be created: it needs a constructor without parameters, and claims a
field. -/
def bindConstructed (lib : Library) (type : StaticType) (node : NodeInfo) (s : BindingState) :
    NodeInfo × BindingState :=
  match lib.defaultConstructor type with
  | none =>
    ({ node with binding := .unbound }, s.report node.span (.noDefaultConstructor type.text))
  | some constructor =>
    match s.claim node.qualifiedName node.span with
    | (false, s) => ({ node with binding := .unbound }, s)
    | (true, s) =>
      ({ node with binding := .constructor constructor },
        { s with constructors := s.constructors + 1 })

/-- Binds the node in a property to a getter of its owner or else to its constructor. -/
def bindNode (lib : Library) (owner : StaticType) (key : String) (node : NodeInfo)
    (s : BindingState) : NodeInfo × BindingState :=
  match node.type with
  | none => (node, s)
  | some type =>
    match lib.lookupGetter owner key type with
    | .error error => (node, s.fail error)
    | .ok (some method) =>
      ({ node with binding := .getter method }, { s with getters := s.getters + 1 })
    | .ok none => bindConstructed lib type node s

/-- Binds the root to its constructor. Its name is claimed whether or not it has one. -/
def bindRoot (lib : Library) (node : NodeInfo) (s : BindingState) : NodeInfo × BindingState :=
  match node.type with
  | none => (node, s)
  | some type =>
    let s := { s with claimed := node.qualifiedName :: s.claimed }
    match lib.defaultConstructor type with
    | none => (node, s.report node.span (.noDefaultConstructor type.text))
    | some constructor =>
      ({ node with binding := .constructor constructor },
        { s with constructors := s.constructors + 1 })

end BindingState

variable {ε : Type} [Expression ε]

namespace Property

mutual

/-- Binds a property of an owner, which may have no type; then only the nodes inside are bound. -/
def bind (lib : Library) (owner : Option StaticType) :
    Property ε → BindingState → Property ε × BindingState
  | scalar info value, s =>
    match owner with
    | none => (scalar info value, s)
    | some type =>
      let (info, value, s) := s.bindScalar lib type info value
      (scalar info value, s)
  | list info items, s =>
    match owner with
    | none => (list info items, s)
    | some type =>
      let (info, items, s) := s.bindList lib type info items
      (list info items, s)
  | nested info node properties, s =>
    let (properties, s) := bindAll lib node.type properties s
    match s.failure, owner with
    | none, some type =>
      let (node, s) := s.bindNode lib type info.key node
      (nested info node properties, s)
    | _, _ => (nested info node properties, s)
  | reference info target, s => (reference info target, s)

/-- Binds properties in order, up to an ambiguous lookup. -/
def bindAll (lib : Library) (owner : Option StaticType) :
    List (Property ε) → BindingState → List (Property ε) × BindingState
  | [], s => ([], s)
  | p :: rest, s =>
    let (p, s) := p.bind lib owner s
    match s.failure with
    | some _ => (p :: rest, s)
    | none =>
      let (rest, s) := bindAll lib owner rest s
      (p :: rest, s)

end

end Property

/-- Binds all nodes and properties of a tree, adding to the given diagnostics. -/
def Tree.bind (lib : Library) (t : Tree ε) (diagnostics : List Diagnostic) :
    Tree ε × BindingState :=
  let (node, s) := BindingState.bindRoot lib t.root.info { diagnostics }
  let (properties, s) := Property.bindAll lib node.type t.root.properties s
  (⟨node, properties⟩, s)

end Componentry
