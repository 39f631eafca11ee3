import Componentry.Library.Basic
import Componentry.Text.Quoted
import Componentry.Text.Uppercase

/-!
# Naming conventions and options

Names in a component tree stand for names in the component library and in the emitted unit. A node
`button` stands for a class `JButton`; its property `text` is set by `setText`, obtained by
`getText` and, for lists, filled by `addText`.

## Main definitions

* `Naming` holds the rules from tree names to member names
* `Options` are the settings shared by all compiled units
* `Context` is a library with options
-/

namespace Componentry

namespace Naming

/-- The simple class name that a node name stands for. -/
def lookupName (initial : Char) (node : String) : String :=
  String.ofList (initial :: (Text.capitalize node).toList)

/-- The method that obtains a property. -/
def getter (key : String) : String := "get" ++ Text.capitalize key

/-- The method that sets a property. -/
def setter (key : String) : String := "set" ++ Text.capitalize key

/-- The method that adds an item to a property. -/
def adder (key : String) : String := "add" ++ Text.capitalize key

/-- The name of something inside something else. -/
def qualify (owner name : String) : String := owner ++ "$" ++ name

end Naming

/-- The settings shared by all compiled units. -/
structure Options where
  /-- Stands in front of the node name in a class name. -/
  componentInitial : Char := 'J'
  componentPackage : List String := []
  unitPackage : List String := []
  initializerName : String := "init"
  entryPointName : String := "main"
  /-- What the emitted procedures declare to throw. -/
  failureType : ClassName := .topLevel "Exception"
  deriving DecidableEq

namespace Options

/-- The class that a node stands for. -/
def componentClass (o : Options) (node : String) : ClassName :=
  ⟨o.componentPackage, Naming.lookupName o.componentInitial node⟩

/-- The class of the unit compiled from a source. -/
def unitClass (o : Options) (name : String) : ClassName := ⟨o.unitPackage, name⟩

/-- The options as shown for a context. -/
def contextText (o : Options) : String :=
  "ResolveContext \x7b options: CompilerOptions \x7b component_prefix: " ++
    Text.quoteChar o.componentInitial
    ++ ", component_package: " ++ Text.quoteList o.componentPackage
    ++ ", unit_package: " ++ Text.quoteList o.unitPackage
    ++ ", initializer_name: " ++ Text.quote o.initializerName
    ++ ", entry_point_name: " ++ Text.quote o.entryPointName
    ++ ", failure_type: ClassName \x7b package: " ++ Text.quoteList o.failureType.package
    ++ ", name: " ++ Text.quote o.failureType.name ++ " \x7d \x7d, .. \x7d"

end Options

/-- A library together with the options of a unit. -/
structure Context where
  library : Library
  options : Options

/-- The type of the component that a node stands for. -/
def Context.resolveComponent (ctx : Context) (node : String) : Option StaticType :=
  ctx.library.resolveType (ctx.options.componentClass node)

end Componentry
