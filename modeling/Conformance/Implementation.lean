import Conformance.Declaration
import Conformance.Obligation
import Conformance.Ty.Traits

namespace Conformance

-- The members of a union without a name, as a set of labels. Other types have none.
def Ty.variantLabels : Ty → List String
  | .anyOf members => labelSet (members.map render)
  | _ => []

-- An implementation of an interface for a target, written by the user or built in.
structure Implementation where
  -- An implementation with a name is never found by itself.
  name : Option String := none
  interface : InterfaceDecl
  generics : List (TypeParam Ty) := []
  target : Ty
  args : List Ty := []
  methods : Bindings (Signature Ty) := ∅
  wheres : List (WhereClause Ty) := []
  obligations : List Obligation := []
  isBuiltin : Bool := false
  span : Option Span := none
deriving DecidableEq

namespace Implementation

def interfaceName (impl : Implementation) : String := impl.interface.name

-- An implementation as it is written.
def ownerLabel (impl : Implementation) : String :=
  "impl " ++ impl.interfaceName ++ " for " ++ impl.target.render

-- The obligations that the parameters and where-clauses of an implementation make.
def deriveObligations (impl : Implementation) : Implementation :=
  { impl with
    obligations := Obligation.ofClauses impl.ownerLabel impl.generics impl.wheres impl.span }

-- An implementation as it applies to a subject. A target about which nothing is known
-- is shown as the subject.
def candidateLabel (impl : Implementation) (subject : Ty) (s : Substitution) (args : List Ty) :
    String :=
  match impl.name with
  | some name => name
  | none =>
      let instantiated := impl.target.substitute s
      let target :=
        if instantiated.isUnknown && !subject.isUnknown then subject else instantiated
      let shown := if args.isEmpty then impl.args.map (Ty.substitute · s) else args
      "impl " ++ interfaceLabel impl.interfaceName shown ++ " for " ++ target.render

def constraintKeys (impl : Implementation) : List String :=
  labelSet (impl.obligations.map Obligation.key)

def variants (impl : Implementation) : List String := impl.target.variantLabels

-- A target that leaves nothing open.
def isConcrete (impl : Implementation) : Bool :=
  impl.target.asInterface?.isNone && !impl.target.usesParams && !impl.target.containsUnknown

end Implementation

end Conformance
