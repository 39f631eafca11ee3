import Componentry.Member
import Componentry.Options
import Componentry.Tree.Expression

/-!
# Component trees

A component tree describes an object and its configuration. A node stands for an object of some
class; its properties give values to it: an expression, a list of expressions, another node, or the
name of a node elsewhere. The nodes of a tree are numbered in the order in which they were added,
the root being zero.

A number is any natural number. Numbers that are kept in 32 bits are the same ones as long as a tree
has no more than `2 ^ 32` nodes.

## Main definitions

* `NodeInfo`, `PropertyInfo` hold what is known of a node and of a property
* `Property`, `Node`, `Tree` are the tree, over any type of expressions
* `Tree.nodes` lists the nodes in pre-order, `Node.indices` the numbers below a node
* `Tree.insert` adds a property to a node
* `Tree.modify` changes one node
-/

namespace Componentry

/-- How the object of a node is obtained. -/
inductive NodeBinding where
  | unbound
  /-- The owner hands the object out. -/
  | getter (method : Method)
  /-- The object is created. -/
  | constructor (constructor : Constructor)
  deriving DecidableEq, Inhabited

/-- How a property is applied to its owner. -/
inductive PropertyBinding where
  | unbound
  | setter (method : Method)
  /-- A method for every item of a list, where one accepts it. -/
  | adders (methods : List (Option Method))
  deriving DecidableEq, Inhabited

/-- A node, apart from its properties. -/
structure NodeInfo where
  index : Nat
  name : String
  qualifiedName : String
  span : Span
  /-- The number of the owner; the root has none. -/
  parent : Option Nat
  type : Option StaticType := none
  binding : NodeBinding := .unbound
  deriving DecidableEq, Inhabited

/-- A property, apart from its value. -/
structure PropertyInfo where
  key : String
  qualifiedName : String
  span : Span
  binding : PropertyBinding := .unbound
  deriving DecidableEq, Inhabited

/-- The name of a node elsewhere; it is not followed. -/
structure Reference where
  name : String
  span : Span
  deriving DecidableEq, Inhabited

/-- A property with its value. The value of a nested property is a node with properties of its
own. -/
inductive Property (ε : Type) where
  | scalar (info : PropertyInfo) (value : ε)
  | list (info : PropertyInfo) (items : List ε)
  | nested (info : PropertyInfo) (node : NodeInfo) (properties : List (Property ε))
  | reference (info : PropertyInfo) (target : Reference)

/-- A node with its properties, in the order of declaration. -/
structure Node (ε : Type) where
  info : NodeInfo
  properties : List (Property ε)

/-- A component tree. -/
structure Tree (ε : Type) where
  root : Node ε

variable {ε : Type}

namespace Property

/-- The property apart from its value. -/
def info : Property ε → PropertyInfo
  | scalar info _ | list info _ | nested info _ _ | reference info _ => info

/-- The property with another binding. -/
def withBinding (binding : PropertyBinding) : Property ε → Property ε
  | scalar info value => scalar { info with binding } value
  | list info items => list { info with binding } items
  | nested info node properties => nested { info with binding } node properties
  | reference info target => reference { info with binding } target

/-- The node that is the value of a nested property. -/
def child? : Property ε → Option (Node ε)
  | nested _ node properties => some ⟨node, properties⟩
  | scalar _ _ | list _ _ | reference _ _ => none

mutual

/-- The numbers of the nodes in a property: each node before those in its properties, in order. -/
def indices : Property ε → List Nat
  | nested _ node properties => node.index :: indicesAll properties
  | scalar _ _ | list _ _ | reference _ _ => []

/-- The numbers of the nodes in a list of properties. -/
def indicesAll : List (Property ε) → List Nat
  | [] => []
  | p :: rest => p.indices ++ indicesAll rest

end

mutual

/-- Changes the node with the given number in a property. -/
def modify (index : Nat) (f : Node ε → Node ε) : Property ε → Property ε
  | nested info node properties =>
    if node.index = index then
      let changed := f ⟨node, properties⟩
      nested info changed.info changed.properties
    else nested info node (modifyAll index f properties)
  | scalar info value => scalar info value
  | list info items => list info items
  | reference info target => reference info target

/-- Changes the node with the given number in a list of properties. -/
def modifyAll (index : Nat) (f : Node ε → Node ε) : List (Property ε) → List (Property ε)
  | [] => []
  | p :: rest => p.modify index f :: modifyAll index f rest

end

end Property

namespace Node

/-- The nodes that are values of the node's properties. -/
def children (n : Node ε) : List (Node ε) := n.properties.filterMap Property.child?

/-- The numbers of the node and of all nodes below it, in pre-order. -/
def indices (n : Node ε) : List Nat := n.info.index :: Property.indicesAll n.properties

/-- Changes the node with the given number, at or below this node. -/
def modify (index : Nat) (f : Node ε → Node ε) (n : Node ε) : Node ε :=
  if n.info.index = index then f n else ⟨n.info, Property.modifyAll index f n.properties⟩

/-- The node has no owner. -/
def isRoot (n : Node ε) : Bool := n.info.parent.isNone

/-- The node with another binding for one of its properties. -/
def bindProperty (n : Node ε) (i : Nat) (binding : PropertyBinding) : Node ε :=
  ⟨n.info, n.properties.modify i (·.withBinding binding)⟩

end Node

/-- The content of a new property. -/
inductive Content (ε : Type) where
  | scalar (value : ε)
  | list (items : List ε)
  | node (name : String)
  | reference (name : String)

/-- A property to be added to the node numbered `owner`. -/
structure Item (ε : Type) where
  owner : Nat
  key : String
  span : Span
  content : Content ε

/-- The property that an item becomes when it is added to its owner; a node in it takes the given
number. -/
def Item.property (item : Item ε) (owner : NodeInfo) (index : Nat) : Property ε :=
  let info : PropertyInfo :=
    { key := item.key, qualifiedName := Naming.qualify owner.qualifiedName item.key,
      span := item.span }
  match item.content with
  | .scalar value => .scalar info value
  | .list items => .list info items
  | .reference name => .reference info ⟨name, item.span⟩
  | .node name =>
    let node : NodeInfo :=
      { index, name, qualifiedName := Naming.qualify owner.qualifiedName name, span := item.span
        parent := some owner.index }
    .nested info node []

namespace Tree

/-- A tree with nothing but a root. -/
def new (name : String) (span : Span) : Tree ε :=
  ⟨{ index := 0, name, qualifiedName := name, span, parent := none }, []⟩

/-- The number of nodes. -/
def size (t : Tree ε) : Nat := t.root.indices.length

@[simp] theorem size_new (name : String) (span : Span) : (new name span : Tree ε).size = 1 := rfl

/-- At most `n` nodes of an agenda; the children of a node are put on the agenda in its place. -/
def visit : Nat → List (Node ε) → List (Node ε)
  | 0, _ => []
  | _ + 1, [] => []
  | n + 1, node :: agenda => node :: visit n (node.children ++ agenda)

/-- All nodes in pre-order: each node before the nodes in its properties, in order. -/
def nodes (t : Tree ε) : List (Node ε) := visit t.size [t.root]

/-- The numbers of the nodes in pre-order. -/
def preorder (t : Tree ε) : List Nat := t.nodes.map (·.info.index)

/-- The node with the given number. -/
def get? (t : Tree ε) (index : Nat) : Option (Node ε) := t.nodes.find? (·.info.index = index)

/-- Changes the node with the given number, if there is one. -/
def modify (t : Tree ε) (index : Nat) (f : Node ε → Node ε) : Tree ε := ⟨t.root.modify index f⟩

/-- Adds a property behind those of its owner; a node in it takes the next free number. An item
whose owner is not in the tree is ignored. -/
def insert (t : Tree ε) (item : Item ε) : Tree ε :=
  t.modify item.owner fun owner =>
    ⟨owner.info, owner.properties ++ [item.property owner.info t.size]⟩

/-- The number that an item will have once it is added: the node in it has one in the tree, any
other property has its place among those of its owner. -/
def position? (t : Tree ε) (item : Item ε) : Option Nat :=
  match item.content with
  | .node _ => some t.size
  | .scalar _ | .list _ | .reference _ => (t.get? item.owner).map (·.properties.length)

/-- Adds properties in order. -/
def insertAll (t : Tree ε) (items : List (Item ε)) : Tree ε := items.foldl insert t

/-- The bindings of every node and of its properties, in pre-order. -/
def bindings (t : Tree ε) : List (NodeBinding × List PropertyBinding) :=
  t.nodes.map fun n => (n.info.binding, n.properties.map (·.info.binding))

end Tree

end Componentry
