import GeneticRepair.Syntax.Store

/-!
# `Syntax/Classes.lean` — finding units and declarations by name

A class name resolves to the first declaration, unit by unit and in pre-order, that carries the full
name. A name with a `$` belongs to a nested or anonymous class; only if nobody carries it, the first
declaration with the name before the `$` stands in for it.
-/

set_option autoImplicit false

namespace GeneticRepair

/-- A type declaration with the compilation unit that it was found in. -/
structure ClassMatch where
  unit : Node
  declaration : Node

/-- The name of the outermost class around a class. -/
def outerClass (name : String) : String := String.ofList (name.toList.takeWhile (· ≠ '$'))

namespace Store

variable {α : Type} [Scalar α]

/-- The first compilation unit with a file name. -/
def unitCalled (s : Store α) (root : Node) (name : String) : Option Node :=
  root.units.find? fun u => s.attribute? u Attributes.fileName = some name

/-- The declarations of a program in the order in which names are resolved. -/
def declarations (root : Node) : List ClassMatch :=
  root.units.flatMap fun u => (u.ofKind .typeDeclaration).map fun d => ⟨u, d⟩

/-- The declaration that a class name resolves to. -/
def resolveClass (s : Store α) (root : Node) (name : String) : Option ClassMatch :=
  let carrying (n : String) := (declarations root).find? fun m =>
    s.attribute? m.declaration Attributes.className = some n
  (carrying name).or (carrying (outerClass name))

end Store

end GeneticRepair
