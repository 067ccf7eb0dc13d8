import Conformance.Environment
import Conformance.Implementation

namespace Conformance

-- All implementations, in the order in which they were registered.
structure Registry where
  entries : List Implementation := []

namespace Registry

instance : EmptyCollection Registry := ⟨{}⟩

def size (registry : Registry) : Nat := registry.entries.length

def register (registry : Registry) (impl : Implementation) : Registry :=
  ⟨registry.entries ++ [impl]⟩

def registerAll (registry : Registry) (impls : List Implementation) : Registry :=
  ⟨registry.entries ++ impls⟩

-- The implementations of some interfaces that can be found without a name.
def candidates (registry : Registry) (interfaces : List String) : List Implementation :=
  registry.entries.filter fun impl => impl.name.isNone && interfaces.contains impl.interfaceName

def forInterface (registry : Registry) (interface : String) : List Implementation :=
  registry.entries.filter fun impl => impl.interfaceName = interface

def findNamed? (registry : Registry) (name : String) : Option Implementation :=
  registry.entries.find? fun impl => impl.name = some name

-- The scalars with a natural order, and with the floats all that can be compared.
def ordered : List Ty :=
  [.scalar (.primitive .string), .scalar (.primitive .bool), .scalar (.primitive .char)] ++
    IntegerKind.all.map fun kind => .scalar (.integer kind)

def comparable : List Ty := ordered ++ [.scalar (.float .f32), .scalar (.float .f64)]

-- The interfaces that scalars implement from the start.
def builtinTargets : List (String × List Ty) :=
  [("Eq", ordered), ("Ord", ordered), ("Hash", ordered), ("PartialEq", comparable),
    ("PartialOrd", comparable), ("Clone", comparable), ("Display", comparable)]

-- The built-in implementations of the interfaces that are declared, without
-- parameters, in an environment.
def builtins (env : Environment) : List Implementation :=
  builtinTargets.flatMap fun (name, targets) =>
    match env.lookupInterface? name with
    | some interface =>
        if interface.generics.isEmpty then
          targets.map fun target =>
            { interface := interface, target := target, isBuiltin := true }
        else []
    | none => []

end Registry

end Conformance
