import Conformance.Implementation
import Conformance.SelfPattern
import Conformance.Ty.Equivalence

namespace Conformance

-- The first position at which two parameter lists differ, counted from one.
def firstMismatch? : (position : Nat) → (expected actual : List Ty) → Option SignatureFault
  | position, want :: expected, got :: actual =>
      if want.equivalent got then firstMismatch? (position + 1) expected actual
      else some (.param position want got)
  | _, _, _ => none

-- The first point at which a signature departs from the one that is expected.
def Signature.fault? (expected actual : Signature Ty) : Option SignatureFault :=
  if expected.generics.length ≠ actual.generics.length then
    some (.generics expected.generics.length actual.generics.length)
  else if expected.params.length ≠ actual.params.length then
    some (.arity expected.params.length actual.params.length)
  else
    match firstMismatch? 1 expected.params actual.params with
    | some fault => some fault
    | none =>
        if expected.result.equivalent actual.result then none
        else some (.result expected.result actual.result)

namespace Implementation

-- What the names of an interface mean in an implementation of it.
def interfaceSubstitution (impl : Implementation) (env : Environment) : Substitution :=
  let generics := impl.interface.generics.zipIdx.map fun (generic, index) =>
    (generic.name, impl.args.getD index .unknown)
  Substitution.bindConstructors (Bindings.ofList (("Self", impl.target) :: generics)) env
    impl.interface impl.target

-- What is wrong with a method, given what the interface asks for. Generics of the
-- implementation are not counted as generics of its methods.
def methodProblem? (impl : Implementation) (s : Substitution) (implGenerics : List String)
    (name : String) (method : Method) : Option Problem :=
  match impl.methods.get? name with
  | none => if method.hasDefault then none else some (.missingMethod impl.ownerLabel name)
  | some sig =>
      let own := { sig with
        generics := sig.generics.filter fun generic => !implGenerics.contains generic.name }
      ((method.sig.substitute s).fault? own).map (.methodMismatch impl.ownerLabel name)

-- Every method of the interface that lacks a default is there, and every method that is
-- there has the right signature.
def methodProblems (impl : Implementation) (env : Environment) (implGenerics : List String) :
    List Problem :=
  let s := impl.interfaceSubstitution env
  impl.interface.methods.entries.filterMap fun (name, method) =>
    impl.methodProblem? s implGenerics name method

end Implementation

end Conformance
