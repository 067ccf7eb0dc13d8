import Conformance.Environment
import Conformance.Program
import Conformance.Ty.Substitution

namespace Conformance

-- What the names in a type expression can mean.
structure Scope where
  env : Environment
  generics : List String := []
  -- The type that `Self` means, or a parameter of that name.
  selfType : Ty := .param "Self"

namespace Scope

def withGenerics (scope : Scope) (names : List String) : Scope :=
  { scope with generics := scope.generics ++ names }

-- A base with arguments, or by itself where there are none.
def appliedOrBare (base : Ty) (args : List Ty) : Ty :=
  if args.isEmpty then base else .applied base args

def argAt (args : List Ty) (index : Nat) : Ty := args.getD index .unknown

-- The meaning of a name with arguments: first `Self`, then the generics in scope, then
-- scalars, which ignore arguments, then built-in constructors, which ignore arguments
-- too many, and then what is declared. A generic alias is replaced by its target.
def resolveName (scope : Scope) (name : String) (args : List Ty) : Ty :=
  if name = "_" ∨ name = "" then .unknown
  else if name = "Self" then appliedOrBare scope.selfType args
  else if name ∈ scope.generics then appliedOrBare (.param name) args
  else
    match Scalar.ofName? name with
    | some kind => .scalar kind
    | none =>
        match Builtin.ofName? name with
        | some (.unary constructor) => .unary constructor (argAt args 0)
        | some .map => .map (argAt args 0) (argAt args 1)
        | none =>
            match scope.env.lookup? name with
            | none => .unknown
            | some (.function _) => .unknown
            | some (.alias decl) =>
                if decl.generics.isEmpty then appliedOrBare (.alias decl.name decl.target) args
                else
                  let bindings := decl.generics.zipIdx.map fun (generic, index) =>
                    (generic.name, argAt args index)
                  .alias decl.name (decl.target.substitute (Bindings.ofList bindings))
            | some decl => appliedOrBare decl.toTy args

mutual
-- The type that an expression means. A result is the union of what it holds with the
-- declared type of errors.
def resolve (scope : Scope) : TypeExpr → Ty
  | .wildcard _ => .unknown
  | .simple name _ => scope.resolveName name []
  | .generic base args _ =>
      let args := resolveAll scope args
      match base with
      | .simple name _ => scope.resolveName name args
      | _ => .applied (resolve scope base) args
  | .nullable inner _ => .nullable (resolve scope inner)
  | .result inner _ =>
      .anyOf [resolve scope inner,
        ((scope.env.lookup? "Error").map Declaration.toTy).getD .unknown]
  | .function params returns _ =>
      .function (.plain (resolveAll scope params) (resolve scope returns))
  | .union members _ => .anyOf (resolveAll scope members)
def resolveAll (scope : Scope) : List TypeExpr → List Ty
  | [] => []
  | e :: es => resolve scope e :: resolveAll scope es
end

@[simp] theorem resolveAll_eq (scope : Scope) (es : List TypeExpr) :
    scope.resolveAll es = es.map scope.resolve := by
  induction es with
  | nil => rfl
  | cons e es ih => simp [resolveAll, ih]

def resolveParams (scope : Scope) (params : List (TypeParam TypeExpr)) : List (TypeParam Ty) :=
  params.map fun param => ⟨param.name, param.bounds.map scope.resolve⟩

-- A where-clause is reported under its subject as it is written.
def resolveWheres (scope : Scope) (wheres : List WhereExpr) : List (WhereClause Ty) :=
  wheres.map fun clause =>
    ⟨clause.subject.render, scope.resolve clause.subject, clause.bounds.map scope.resolve⟩

-- A parameter without a type is unknown, apart from `self`, which has the type `Self`.
def resolveParam (scope : Scope) (param : ParamDef) : Ty :=
  match param.type with
  | some type => scope.resolve type
  | none => if param.name = "self" then scope.selfType else .unknown

def signature (scope : Scope) (item : FunctionDef) : Signature Ty :=
  let inner := scope.withGenerics (TypeParam.names item.generics)
  { generics := inner.resolveParams item.generics
    params := item.params.map inner.resolveParam
    result := (item.result.map inner.resolve).getD .unknown
    wheres := inner.resolveWheres item.wheres }

end Scope

end Conformance
