import Conformance.Diagnostic
import Conformance.Environment

namespace Conformance

-- The interface that a constraint asks for, with the number of arguments it takes and
-- the arguments it is given.
structure ConstraintInterface where
  name : String
  arity : Nat
  args : List Ty
deriving DecidableEq

def ConstraintInterface.fault? (constraint : ConstraintInterface) : Option ConstraintFault :=
  if constraint.args.length = constraint.arity then none
  else some (.arity constraint.name constraint.arity constraint.args.length)

namespace Environment

def namedInterface (env : Environment) (name : String) (args : List Ty) :
    Except ConstraintFault ConstraintInterface :=
  match env.lookup? name with
  | some (.interface decl) => .ok ⟨decl.name, decl.generics.length, args⟩
  | some _ => .error (.notAnInterface name)
  | none => .error (.unknownInterface name)

-- A constraint names its interface by an interface type or, where the kind of the name
-- was not known, by a struct.
def constraintInterface (env : Environment) (constraint : Ty) :
    Except ConstraintFault ConstraintInterface :=
  match constraint.resolveAlias with
  | .declared .interface name _ => env.namedInterface name []
  | .declared .struct name _ => env.namedInterface name []
  | .inst name args => env.namedInterface name args
  | .applied base args =>
      match base.resolveAlias with
      | .declared .interface name _ => env.namedInterface name args
      | .declared .struct name _ => env.namedInterface name args
      | other => .error (.notAnInterface other.render)
  | other => .error (.notAnInterface other.render)

-- The interface of a constraint that has the right number of arguments.
def checkedInterface (env : Environment) (constraint : Ty) :
    Except ConstraintFault ConstraintInterface :=
  match env.constraintInterface constraint with
  | .error fault => .error fault
  | .ok interface =>
      match interface.fault? with
      | some fault => .error fault
      | none => .ok interface

end Environment

end Conformance
