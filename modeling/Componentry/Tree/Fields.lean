import Componentry.Tree.Basic
import Std.Data.TreeMap

/-!
# Fields of a unit

The static storage of a unit: the root of the tree, every node that is created, and every value that
is passed to a setter have a field, named by their qualified name.

## Main definitions

* `Tree.declarations` lists the fields in the order of the tree
* `Tree.fields` is the table of fields, sorted by name
-/

namespace Componentry

/-- Field names with their types, sorted by name. -/
abbrev FieldTable := Std.TreeMap String StaticType

/-- The field of a node: the root has one in any case, another node if it is created. -/
def NodeInfo.declaration (node : NodeInfo) : List (String × StaticType) :=
  match node.type, node.parent, node.binding with
  | some type, none, _ => [(node.qualifiedName, type)]
  | some type, some _, .constructor _ => [(node.qualifiedName, type)]
  | _, _, _ => []

variable {ε : Type} [Expression ε]

namespace Property

mutual

/-- The fields of a property and of the nodes in it. -/
def declarations : Property ε → List (String × StaticType)
  | scalar info value =>
    match info.binding with
    | .setter _ => [(info.qualifiedName, Expression.type value)]
    | .unbound | .adders _ => []
  | nested _ node properties => node.declaration ++ declarationsAll properties
  | list _ _ | reference _ _ => []

/-- The fields of a list of properties. -/
def declarationsAll : List (Property ε) → List (String × StaticType)
  | [] => []
  | p :: rest => p.declarations ++ declarationsAll rest

end

end Property

namespace Tree

/-- The fields of a tree, each node before its properties. -/
def declarations (t : Tree ε) : List (String × StaticType) :=
  t.root.info.declaration ++ Property.declarationsAll t.root.properties

/-- The table of fields; of two fields with one name the later one counts. -/
def fields (t : Tree ε) : FieldTable := Std.TreeMap.ofList t.declarations

end Tree

end Componentry
