import Componentry.Library.Basic
import Componentry.Library.Overload

/-!
# Registered classes

A component library kept in memory. Classes are registered one by one, in any order; supertypes may
be named before they are registered, or never be registered at all.

## Main definitions

* `ClassEntry` is the declaration of a class
* `Registry.register` adds a class, or refuses it and changes nothing
* `Registry.visibleMethods` are the methods of a class with the inherited ones
* `Registry.library` answers the lookups of compilation
-/

namespace Componentry

/-- A method as a class declares it. -/
structure MethodEntry where
  name : String
  params : List StaticType
  result : StaticType
  deriving DecidableEq, Inhabited

/-- The declaration of a class. -/
structure ClassEntry where
  name : ClassName
  superclass : Option ClassName := none
  interfaces : List ClassName := []
  isAbstract : Bool := false
  /-- The parameter lists of the constructors. -/
  constructors : List (List StaticType) := []
  methods : List MethodEntry := []
  deriving DecidableEq, Inhabited

namespace ClassEntry

/-- The superclass, if any, and the interfaces, in the order of declaration. -/
def supertypes (e : ClassEntry) : List ClassName := e.superclass.toList ++ e.interfaces

/-- Objects of the class can be created without arguments. An abstract class has no objects of its
own, whatever constructors it declares. -/
def hasDefaultConstructor (e : ClassEntry) : Bool := !e.isAbstract && e.constructors.contains []

/-- A declared method as a member of the class. -/
def method (e : ClassEntry) (m : MethodEntry) : Method := ⟨e.name, m.name, m.params, m.result⟩

/-- The declared methods with the given name. -/
def methodsNamed (e : ClassEntry) (name : String) : List Method :=
  (e.methods.filter (·.name = name)).map e.method

end ClassEntry

/-- The first method whose name and parameters are those of an earlier one, or occur in `seen`. -/
def MethodEntry.firstRepeated (seen : List (String × List StaticType)) :
    List MethodEntry → Option MethodEntry
  | [] => none
  | m :: rest =>
    if (m.name, m.params) ∈ seen then some m
    else firstRepeated ((m.name, m.params) :: seen) rest

/-- A component library kept in memory. -/
structure Registry where
  /-- The registered classes, newest first. -/
  classes : List ClassEntry := []
  hierarchy : Hierarchy := .empty
  stringType : StaticType := .ofClass "String"
  deriving DecidableEq

namespace Registry

/-- No class is registered. -/
def empty : Registry := {}

/-- The registered class with the given name. -/
def get? (r : Registry) (name : ClassName) : Option ClassEntry := r.classes.find? (·.name = name)

/-- A class of the given name is registered. -/
def contains (r : Registry) (name : ClassName) : Bool := (r.get? name).isSome

/-- The number of registered classes. -/
def size (r : Registry) : Nat := r.classes.length

/-- Why the class cannot be registered, if so: its name is taken, it is its own supertype, or it
declares a method twice. -/
def refusal? (r : Registry) (e : ClassEntry) : Option RegistrationError :=
  if r.contains e.name then some (.duplicateClass e.name.text)
  else if e.name ∈ e.supertypes then some (.selfInheritance e.name.text)
  else (MethodEntry.firstRepeated [] e.methods).map fun m => .duplicateMember e.name.text m.name

/-- The registry with the class and the edges to its supertypes, whatever was registered before. -/
def add (r : Registry) (e : ClassEntry) : Registry :=
  { r with
    classes := e :: r.classes
    hierarchy := e.supertypes.foldl (fun h sup => h.insert e.name sup) r.hierarchy }

/-- Registers a class, unless there is a reason to refuse it. Gives the registry after the call, and
the reason if the class is refused. -/
def register (r : Registry) (e : ClassEntry) : Registry × Option RegistrationError :=
  match r.refusal? e with
  | some error => (r, some error)
  | none => (r.add e, none)

theorem register_of_refusal {r : Registry} {e : ClassEntry} {error : RegistrationError}
    (refused : r.refusal? e = some error) : r.register e = (r, some error) := by
  rw [register, refused]

theorem register_of_accepted {r : Registry} {e : ClassEntry} (accepted : r.refusal? e = none) :
    r.register e = (r.add e, none) := by
  rw [register, accepted]

@[simp] theorem register_snd (r : Registry) (e : ClassEntry) : (r.register e).2 = r.refusal? e := by
  cases refusal : r.refusal? e with
  | some error => rw [register_of_refusal refusal]
  | none => rw [register_of_accepted refusal]

/-- Registers classes in order, up to the first that is refused. -/
def registerAll (r : Registry) : List ClassEntry → Except RegistrationError Registry
  | [] => .ok r
  | e :: rest =>
    match r.register e with
    | (next, none) => next.registerAll rest
    | (_, some error) => .error error

/-- Of methods with the same parameters only the first is kept. -/
def hideRepeated : List Method → List Method
  | [] => []
  | m :: rest => m :: (hideRepeated rest).filter (·.params ≠ m.params)

/-- The methods with the given name that the class and its registered supertypes declare, nearest
first. -/
def declaredMethods (r : Registry) (owner : ClassName) (name : String) : List Method :=
  (r.hierarchy.ancestors owner).flatMap fun c =>
    match r.get? c with
    | some e => e.methodsNamed name
    | none => []

/-- The methods of a class with the given name, with the inherited ones; a nearer declaration hides
those with the same parameters further up. -/
def visibleMethods (r : Registry) (owner : ClassName) (name : String) : List Method :=
  hideRepeated (r.declaredMethods owner name)

/-- The type of a registered class. -/
def resolveType (r : Registry) (name : ClassName) : Option StaticType :=
  (r.get? name).map fun e => .object e.name

/-- Selects among the visible methods; types other than classes have none. -/
def resolveMethod (r : Registry) (owner : StaticType) (name : String) (args : List StaticType) :
    Except LookupError Method :=
  let candidates :=
    match owner.class? with
    | some c => r.visibleMethods c name
    | none => []
  r.hierarchy.resolve owner name candidates args

/-- The constructor without parameters of a registered class that has one. -/
def defaultConstructor (r : Registry) (t : StaticType) : Option Constructor :=
  match t.class?.bind r.get? with
  | some e => if e.hasDefaultConstructor then some (.default e.name) else none
  | none => none

/-- The registered classes as a component library. -/
def library (r : Registry) : Library where
  resolveType := r.resolveType
  resolveMethod := r.resolveMethod
  defaultConstructor := r.defaultConstructor
  stringType := r.stringType
  isAssignable := r.hierarchy.converts

end Registry

end Componentry
