import Conformance.Bindings
import Conformance.Ty.Basic

namespace Conformance

-- The types that stand for parameters, in the order in which they were found.
abbrev Substitution := Bindings Ty

namespace Ty

-- An application whose constructor has become a built-in one is that built-in type, if
-- the number of arguments is right.
def applyTo : Ty → List Ty → Ty
  | .unary constructor _, [arg] => .unary constructor arg
  | .map _ _, [key, value] => .map key value
  | base, args => .applied base args

mutual
def instantiate (s : Substitution) : Ty → Ty
  | .unknown => .unknown
  | .scalar kind => .scalar kind
  | .param name => (s.get? name).getD (.param name)
  | .declared family name params => .declared family name params
  | .inst name args => .inst name (instantiateAll s args)
  | .anyOf members => .anyOf (instantiateAll s members)
  | .alias name target => .alias name (target.instantiate s)
  | .applied base args => applyTo (base.instantiate s) (instantiateAll s args)
  | .nullable inner => .nullable (inner.instantiate s)
  | .function sig => .function (instantiateSignature s sig)
  | .overload sigs => .overload (instantiateSignatures s sigs)
  | .unary constructor arg => .unary constructor (arg.instantiate s)
  | .map key value => .map (key.instantiate s) (value.instantiate s)
def instantiateAll (s : Substitution) : List Ty → List Ty
  | [] => []
  | t :: ts => t.instantiate s :: instantiateAll s ts
def instantiateSignature (s : Substitution) : Signature Ty → Signature Ty
  | ⟨generics, params, result, wheres⟩ =>
      ⟨instantiateParams s generics, instantiateAll s params, result.instantiate s,
        instantiateWheres s wheres⟩
def instantiateSignatures (s : Substitution) : List (Signature Ty) → List (Signature Ty)
  | [] => []
  | sig :: sigs => instantiateSignature s sig :: instantiateSignatures s sigs
def instantiateParams (s : Substitution) : List (TypeParam Ty) → List (TypeParam Ty)
  | [] => []
  | ⟨name, bounds⟩ :: ps => ⟨name, instantiateAll s bounds⟩ :: instantiateParams s ps
def instantiateWheres (s : Substitution) : List (WhereClause Ty) → List (WhereClause Ty)
  | [] => []
  | ⟨name, subject, bounds⟩ :: ws =>
      ⟨name, subject.instantiate s, instantiateAll s bounds⟩ :: instantiateWheres s ws
end

@[simp] theorem instantiateAll_eq (s : Substitution) (ts : List Ty) :
    instantiateAll s ts = ts.map (instantiate s) := by
  induction ts with
  | nil => rfl
  | cons t ts ih => simp [instantiateAll, ih]

@[simp] theorem instantiateSignatures_eq (s : Substitution) (sigs : List (Signature Ty)) :
    instantiateSignatures s sigs = sigs.map (instantiateSignature s) := by
  induction sigs with
  | nil => rfl
  | cons sig sigs ih => simp [instantiateSignatures, ih]

@[simp] theorem instantiateParams_eq (s : Substitution) (ps : List (TypeParam Ty)) :
    instantiateParams s ps = ps.map fun p => ⟨p.name, p.bounds.map (instantiate s)⟩ := by
  induction ps with
  | nil => rfl
  | cons p ps ih => simp [instantiateParams, ih]

@[simp] theorem instantiateWheres_eq (s : Substitution) (ws : List (WhereClause Ty)) :
    instantiateWheres s ws =
      ws.map fun w => ⟨w.param, w.subject.instantiate s, w.bounds.map (instantiate s)⟩ := by
  induction ws with
  | nil => rfl
  | cons w ws ih => simp [instantiateWheres, ih]

-- A substitution that binds nothing leaves a type as it is written, also where an
-- application of a built-in constructor could be contracted.
def substitute (t : Ty) (s : Substitution) : Ty := if s.isEmpty then t else t.instantiate s

end Ty

namespace Signature

def substitute (sig : Signature Ty) (s : Substitution) : Signature Ty :=
  if s.isEmpty then sig else Ty.instantiateSignature s sig

end Signature

end Conformance
