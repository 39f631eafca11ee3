import Componentry.Tree.Binding
import Componentry.Tree.Typing
import Componentry.Unit

/-!
# Compilation

A source is compiled in order: its tree takes types, is bound and becomes a unit. If the source is
malformed, or anything is reported on the way, there is no unit and the reports are the result.

## Main definitions

* `Source` is a tree with a name and with what was wrong with its text
* `Context.resolve` assigns types and binds
* `Context.compile` compiles a source, `Context.compileAll` several
-/

namespace Componentry

/-- A tree to be compiled, under a name; `malformed` tells what was wrong with its text. -/
structure Source (ε : Type) where
  name : String
  tree : Tree ε
  malformed : List Diagnostic := []

/-- The result of compiling a source. -/
structure Outcome where
  /-- The unit, unless something was reported. -/
  unit : Option CompiledUnit
  diagnostics : List Diagnostic

/-- A unit was made and nothing was reported. -/
def Outcome.isSuccess (o : Outcome) : Bool := o.unit.isSome && o.diagnostics.isEmpty

namespace Context

variable {ε : Type} [Expression ε]

/-- Assigns types to a tree and binds it. The tree is returned as far as it was visited, with the
reports on it, or with the ambiguous lookup that ended the visit. -/
def resolve (ctx : Context) (t : Tree ε) : Tree ε × Except CompileError (List Diagnostic) :=
  let (t, typing) := t.assignTypes ctx []
  let (t, binding) := t.bind ctx.library typing.diagnostics
  match binding.failure with
  | some error => (t, .error (.lookup error))
  | none => (t, .ok binding.diagnostics)

/-- Compiles a source. -/
def compile (ctx : Context) (source : Source ε) : Except CompileError Outcome :=
  if source.malformed ≠ [] then .ok ⟨none, source.malformed⟩
  else
    match ctx.resolve source.tree with
    | (_, .error error) => .error error
    | (tree, .ok diagnostics) =>
      if diagnostics ≠ [] then .ok ⟨none, diagnostics⟩
      else (tree.emit ctx.options source.name).map fun unit => ⟨some unit, diagnostics⟩

/-- Compiles several sources, each on its own. -/
def compileAll (ctx : Context) (sources : List (Source ε)) : List (Except CompileError Outcome) :=
  sources.map ctx.compile

end Context

end Componentry
