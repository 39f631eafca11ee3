/-!
# Diagnostics

Problems in a source that compilation reports and then goes past. Each one names the place it was
found at.

## Main definitions

* `Span` is a place in a source
* `Problem` is what can be wrong there
* `Diagnostic` is a problem at a place, with its text
-/

namespace Componentry

/-- A place in a source: line, column and length. -/
structure Span where
  line : Nat
  column : Nat
  length : Nat
  deriving DecidableEq, Inhabited

/-- The place as text; the length is not shown. -/
def Span.text (s : Span) : String := s!"{s.line}:{s.column}"

/-- What can be wrong in a source. -/
inductive Problem where
  | malformed (message : String)
  | unknownComponent (name lookupName : String)
  | noDefaultConstructor (typeName : String)
  | unknownProperty (key typeName : String)
  | duplicateField (name : String)
  deriving DecidableEq

namespace Problem

/-- The kinds of problems. -/
inductive Kind where
  | malformed
  | unknownComponent
  | noDefaultConstructor
  | unknownProperty
  | duplicateField
  deriving DecidableEq

/-- All kinds, in the order of a report. -/
def Kind.all : List Kind :=
  [malformed, unknownComponent, noDefaultConstructor, unknownProperty, duplicateField]

/-- The name of a kind. -/
def Kind.text : Kind → String
  | malformed => "syntax error"
  | unknownComponent => "unresolved component type"
  | noDefaultConstructor => "missing default constructor"
  | unknownProperty => "unresolved property"
  | duplicateField => "duplicate field"

/-- The kind of a problem. -/
def kind : Problem → Kind
  | malformed _ => .malformed
  | unknownComponent _ _ => .unknownComponent
  | noDefaultConstructor _ => .noDefaultConstructor
  | unknownProperty _ _ => .unknownProperty
  | duplicateField _ => .duplicateField

/-- The problem in words. -/
def message : Problem → String
  | malformed message => message
  | unknownComponent name lookupName =>
    s!"unknown component type '{name}' (no class named '{lookupName}')"
  | noDefaultConstructor typeName => s!"type '{typeName}' has no zero-argument constructor"
  | unknownProperty key typeName => s!"unknown property '{key}' on type '{typeName}'"
  | duplicateField name => s!"field '{name}' is already declared"

end Problem

/-- A problem at a place of a source. -/
structure Diagnostic where
  span : Span
  problem : Problem
  deriving DecidableEq

namespace Diagnostic

/-- The kind of the problem. -/
def kind (d : Diagnostic) : Problem.Kind := d.problem.kind

/-- The place and the problem in words. -/
def text (d : Diagnostic) : String := s!"at {d.span.text}: {d.problem.message}"

/-- A report has one line for each diagnostic. -/
def report (ds : List Diagnostic) : String := "\n".intercalate (ds.map text)

/-- The number of diagnostics of a kind. -/
def count (kind : Problem.Kind) (ds : List Diagnostic) : Nat := ds.countP (·.kind = kind)

end Diagnostic

end Componentry
