import Componentry.Symbol.Fingerprint

/-!
# Names of classes

A class of the component library has a simple name inside a package. Its full name joins the package
segments and the simple name by dots; reading a dotted name ignores empty segments.

## Main definitions

* `ClassName` is a package with a simple name
* `ClassName.parse` reads a dotted name, `ClassName.text` writes it
* `ClassName.compare` orders names by package, then by simple name
-/

namespace Componentry

/-- The name of a class: its package, outermost segment first, and its simple name. -/
structure ClassName where
  package : List String
  name : String
  deriving DecidableEq, Inhabited

namespace ClassName

/-- The pieces of a text between the occurrences of `mark`; there is always at least one. -/
def pieces (mark : Char) : List Char → List (List Char)
  | [] => [[]]
  | c :: rest =>
    if c = mark then [] :: pieces mark rest
    else
      match pieces mark rest with
      | [] => [[c]]
      | p :: ps => (c :: p) :: ps

theorem pieces_ne_nil (mark : Char) (cs : List Char) : pieces mark cs ≠ [] := by
  cases cs with
  | nil => simp [pieces]
  | cons c rest =>
    unfold pieces
    split
    · simp
    · split <;> simp

/-- The nonempty pieces of a text between its dots. -/
def segments (text : String) : List String :=
  ((pieces '.' text.toList).filter (!·.isEmpty)).map String.ofList

/-- The last segment is the simple name, the others are the package. -/
def ofSegments (segments : List String) : ClassName := ⟨segments.dropLast, segments.getLastD ""⟩

/-- Reads a dotted name. -/
def parse (text : String) : ClassName := ofSegments (segments text)

/-- A class outside all packages. -/
def topLevel (name : String) : ClassName := ⟨[], name⟩

/-- The class lies outside all packages. -/
def isTopLevel (c : ClassName) : Bool := c.package.isEmpty

/-- Another class of the same package. -/
def sibling (c : ClassName) (name : String) : ClassName := ⟨c.package, name⟩

/-- Package segments and simple name, joined by `mark`. -/
def joined (mark : Char) (c : ClassName) : String :=
  String.ofList ([mark].intercalate ((c.package ++ [c.name]).map String.toList))

/-- The full name, with dots. -/
def text (c : ClassName) : String := c.joined '.'

/-- The full name as it appears in emitted units, with slashes. -/
def internalName (c : ClassName) : String := c.joined '/'

/-- The fingerprint of the class, which depends on its full name only. -/
def fingerprint (c : ClassName) : Fingerprint := .ofName c.text

/-- Compares lists of texts lexicographically, each text by code points. -/
def comparePackages : List String → List String → Ordering
  | [], [] => .eq
  | [], _ :: _ => .lt
  | _ :: _, [] => .gt
  | s :: ss, t :: ts => (Ord.compare s t).then (comparePackages ss ts)

/-- The order of class names: by package, then by simple name. -/
def compare (c d : ClassName) : Ordering :=
  (comparePackages c.package d.package).then (Ord.compare c.name d.name)

/-- The names in ascending order. -/
def sort (names : List ClassName) : List ClassName := names.mergeSort fun c d => (c.compare d).isLE

end ClassName

end Componentry
