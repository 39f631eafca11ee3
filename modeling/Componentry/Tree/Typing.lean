import Componentry.Tree.Basic

/-!
# Types of nodes

Every node of a tree stands for a class of the component library, found by its name. A node below
one whose class is unknown is looked up all the same, so that its own failure is reported, but takes
no type.

## Main definitions

* `Typing` is what is known after part of a tree has been visited
* `NodeInfo.assignType` looks up one node
* `Tree.assignTypes` visits all nodes in pre-order
-/

namespace Componentry

/-- The state of a visit that assigns types. -/
structure Typing where
  diagnostics : List Diagnostic
  resolved : Nat := 0
  unresolved : Nat := 0
  deriving DecidableEq

/-- The report on a node whose class is unknown. -/
def NodeInfo.unknownComponent (node : NodeInfo) (ctx : Context) : Diagnostic :=
  ⟨node.span, .unknownComponent node.name (ctx.options.componentClass node.name).name⟩

/-- Looks up the class of a node. The node takes the type unless `failed`, that is unless the class
of an owner is unknown. Also tells whether the node failed. -/
def NodeInfo.assignType (ctx : Context) (failed : Bool) (node : NodeInfo) (s : Typing) :
    NodeInfo × Bool × Typing :=
  match ctx.resolveComponent node.name with
  | some type =>
    if failed then (node, true, { s with unresolved := s.unresolved + 1 })
    else ({ node with type := some type }, false, { s with resolved := s.resolved + 1 })
  | none =>
    (node, true,
      { s with
        unresolved := s.unresolved + 1
        diagnostics := s.diagnostics ++ [node.unknownComponent ctx] })

variable {ε : Type} [Expression ε]

namespace Property

mutual

/-- Assigns types in a property; `failed` tells that the owner has none. -/
def assignTypes (ctx : Context) (failed : Bool) : Property ε → Typing → Property ε × Typing
  | scalar info value, s =>
    (scalar info (Expression.withStringType ctx.library.stringType value), s)
  | list info items, s =>
    (list info (items.map (Expression.withStringType ctx.library.stringType)), s)
  | nested info node properties, s =>
    let (node, failed, s) := node.assignType ctx failed s
    let (properties, s) := assignTypesAll ctx failed properties s
    (nested info node properties, s)
  | reference info target, s => (reference info target, s)

/-- Assigns types in a list of properties. -/
def assignTypesAll (ctx : Context) (failed : Bool) :
    List (Property ε) → Typing → List (Property ε) × Typing
  | [], s => ([], s)
  | p :: rest, s =>
    let (p, s) := p.assignTypes ctx failed s
    let (rest, s) := assignTypesAll ctx failed rest s
    (p :: rest, s)

end

end Property

/-- Assigns types to all nodes of a tree, adding to the given diagnostics. A node that fails keeps
the type it had. -/
def Tree.assignTypes (ctx : Context) (t : Tree ε) (diagnostics : List Diagnostic) :
    Tree ε × Typing :=
  let (node, failed, s) := t.root.info.assignType ctx false { diagnostics }
  let (properties, s) := Property.assignTypesAll ctx failed t.root.properties s
  (⟨node, properties⟩, s)

end Componentry
