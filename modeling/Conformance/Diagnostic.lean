import Conformance.Integer
import Conformance.Outcome
import Conformance.TypeExpr

namespace Conformance

-- Why a constraint cannot be checked at all.
inductive ConstraintFault where
  | unknownInterface (name : String)
  | notAnInterface (found : String)
  | arity (interface : String) (expected given : Nat)
deriving DecidableEq

-- Leaving out all arguments has words of its own.
def ConstraintFault.message : ConstraintFault → String
  | .unknownInterface name => "references unknown interface '" ++ name ++ "'"
  | .notAnInterface found => "must reference an interface (got " ++ found ++ ")"
  | .arity interface expected given =>
      if given = 0 then
        "requires " ++ toString expected ++ " type argument(s) for interface '" ++ interface ++ "'"
      else
        "expected " ++ toString expected ++ " type argument(s) for interface '" ++ interface ++
          "', got " ++ toString given

-- Where the signature of a method departs from that of its interface.
inductive SignatureFault where
  | generics (expected given : Nat)
  | arity (expected given : Nat)
  | param (position : Nat) (expected given : Ty)
  | result (expected given : Ty)
deriving DecidableEq

def SignatureFault.message : SignatureFault → String
  | .generics expected given =>
      "expects " ++ toString expected ++ " generic parameter(s), got " ++ toString given
  | .arity expected given =>
      "expects " ++ toString expected ++ " parameter(s), got " ++ toString given
  | .param position expected given =>
      "parameter " ++ toString position ++ " expected " ++ expected.render ++ ", got " ++ given.render
  | .result expected given =>
      "return type expected " ++ expected.render ++ ", got " ++ given.render

inductive Problem where
  | targetShape (owner : String) (pattern : TypeExpr)
  | bareTarget (owner : String)
  | implArity (owner : String) (expected given : Nat)
  | constraint (place : String) (fault : ConstraintFault)
  | unsatisfied (place : Option String) (refusal : Refusal)
  | ambiguousImplementation (ambiguity : Ambiguity)
  | ambiguousOverload (name : String)
  | noMatchingOverload (name : String)
  | unexpectedArguments (interface : String)
  | duplicateDeclaration (name : String)
  | aliasCycle (names : List String)
  | missingMethod (owner method : String)
  | methodMismatch (owner method : String) (fault : SignatureFault)
  | numericOperands (operator : String) (left right : Ty)
  | integerWidth (operator : String) (fault : WidthExceeded)
deriving DecidableEq

namespace Problem

def message : Problem → String
  | .targetShape owner pattern =>
      owner ++ " must match interface self type '" ++ pattern.render ++ "'"
  | .bareTarget owner =>
      owner ++ " cannot target a type constructor because the interface does not declare a " ++
        "self type (use 'for ...' to enable constructor implementations)"
  | .implArity owner expected given =>
      if given = 0 then
        owner ++ " requires " ++ toString expected ++ " interface type argument(s)"
      else
        owner ++ " expected " ++ toString expected ++ " interface type argument(s), got " ++
          toString given
  | .constraint place fault => place ++ " " ++ fault.message
  | .unsatisfied none refusal => refusal.message
  | .unsatisfied (some place) refusal => place ++ " is not satisfied: " ++ refusal.message
  | .ambiguousImplementation ambiguity => ambiguity.message
  | .ambiguousOverload name => "ambiguous overload for " ++ name
  | .noMatchingOverload name => "no overloads of " ++ name ++ " match provided arguments"
  | .unexpectedArguments interface => "impl " ++ interface ++ " does not accept type arguments"
  | .duplicateDeclaration name => "duplicate declaration '" ++ name ++ "'"
  | .aliasCycle names => "type alias cycle detected: " ++ " -> ".intercalate names
  | .missingMethod owner method => owner ++ " missing method '" ++ method ++ "'"
  | .methodMismatch owner method fault => owner ++ " method '" ++ method ++ "' " ++ fault.message
  | .numericOperands operator left right =>
      "'" ++ operator ++ "' requires numeric operands (got " ++ left.render ++ " and " ++
        right.render ++ ")"
  | .integerWidth operator fault => "'" ++ operator ++ "' " ++ fault.message

-- The category a problem is filed under.
def category : Problem → String
  | .targetShape _ _ => "definition"
  | .bareTarget _ => "definition"
  | .implArity _ _ _ => "arity"
  | .constraint _ (.unknownInterface _) => "unknown_interface"
  | .constraint _ (.notAnInterface _) => "not_an_interface"
  | .constraint _ (.arity _ _ _) => "arity"
  | .unsatisfied _ _ => "unsatisfied_constraint"
  | .ambiguousImplementation _ => "ambiguous_implementation"
  | .ambiguousOverload _ => "ambiguous_overload"
  | .noMatchingOverload _ => "no_matching_overload"
  | .unexpectedArguments _ => "unexpected_interface_arguments"
  | .duplicateDeclaration _ => "duplicate_declaration"
  | .aliasCycle _ => "alias_cycle"
  | .missingMethod _ _ => "missing_method"
  | .methodMismatch _ _ _ => "method_signature_mismatch"
  | .numericOperands _ _ _ => "numeric_operands"
  | .integerWidth _ _ => "integer_width"

def code (problem : Problem) : String := "able::typecheck::" ++ problem.category

def targetHelp : String :=
  "Adjust the impl target so it has the shape the interface declares after 'for'"

def arityHelp : String := "Check the number of type arguments supplied to the interface"

-- Advice on how to mend a problem, where there is a standard way.
def help? : Problem → Option String
  | .targetShape _ _ => some targetHelp
  | .bareTarget _ => some targetHelp
  | .implArity _ _ _ => some arityHelp
  | .constraint _ (.arity _ _ _) => some arityHelp
  | .ambiguousImplementation _ =>
      some "Remove one of the overlapping implementations or make one strictly more specific"
  | .ambiguousOverload _ => some "Annotate the arguments so only one overload applies"
  | .duplicateDeclaration _ =>
      some "Each struct, union, interface and alias name may only be declared once per scope"
  | .missingMethod _ _ => some "Implement every interface method that has no default body"
  | _ => none

-- The words set against the source text a problem belongs to.
def caption : Problem → String
  | .targetShape _ _ => "invalid implementation target"
  | .bareTarget _ => "invalid implementation target"
  | .implArity _ _ _ => "wrong number of type arguments"
  | .constraint _ (.unknownInterface _) => "unknown interface"
  | .constraint _ (.notAnInterface _) => "not an interface"
  | .constraint _ (.arity _ _ _) => "wrong number of type arguments"
  | .unsatisfied _ _ => "constraint not satisfied"
  | .ambiguousImplementation _ => "ambiguous implementation lookup"
  | .ambiguousOverload _ => "call matches more than one overload"
  | .noMatchingOverload _ => "no overload accepts these arguments"
  | .unexpectedArguments _ => "interface takes no type arguments"
  | .duplicateDeclaration _ => "redeclared here"
  | .aliasCycle _ => "alias refers back to itself"
  | .missingMethod _ method => "missing '" ++ method ++ "'"
  | .methodMismatch _ _ _ => "signature differs from the interface"
  | .numericOperands _ _ _ => "non-numeric operand"
  | .integerWidth _ _ => "no integer type is wide enough"

end Problem

-- The problem an unsuccessful outcome amounts to.
def Outcome.problem? : Outcome → Option Problem
  | .resolved _ => none
  | .unsatisfied refusal => some (.unsatisfied none refusal)
  | .ambiguous ambiguity => some (.ambiguousImplementation ambiguity)

-- A problem with the source text it belongs to, if that is known.
structure Diagnostic where
  problem : Problem
  node : Option Span
deriving DecidableEq

namespace Diagnostic

def message (diagnostic : Diagnostic) : String := "typechecker: " ++ diagnostic.problem.message

end Diagnostic

end Conformance
