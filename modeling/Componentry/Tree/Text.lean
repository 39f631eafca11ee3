import Componentry.Tree.Basic

/-!
# Component trees as text

A node is written as its name and its properties in braces, one property to a line, nested nodes one
indentation deeper.

## Main definitions

* `Tree.text` writes a tree
-/

namespace Componentry

variable {ε : Type} [Expression ε]

/-- A node around the text of its properties. -/
def NodeInfo.frame (indent : String) (node : NodeInfo) (body : String) : String :=
  node.name ++ "\n" ++ indent ++ "\x7b" ++ body ++ "\n" ++ indent ++ "\x7d"

namespace Property

mutual

/-- A property on a line of its own, `indent` being that of the line. -/
def text (indent : String) : Property ε → String
  | scalar info value => line indent info (Expression.text value)
  | list info items => line indent info ("[" ++ ", ".intercalate (items.map Expression.text) ++ "]")
  | nested info node properties =>
    line indent info (node.frame indent (textAll (indent ++ "\t") properties))
  | reference info target => line indent info target.name
where
  /-- A key with the text of its value. -/
  line (indent : String) (info : PropertyInfo) (value : String) : String :=
    "\n" ++ indent ++ info.key ++ " = " ++ value

/-- Properties on lines of their own. -/
def textAll (indent : String) : List (Property ε) → String
  | [] => ""
  | p :: rest => p.text indent ++ textAll indent rest

end

end Property

/-- The tree as text. -/
def Tree.text (t : Tree ε) : String :=
  t.root.info.frame "" (Property.textAll "\t" t.root.properties)

end Componentry
