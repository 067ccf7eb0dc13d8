import Conformance.Bindings
import Conformance.Ty.Basic
import Conformance.TypeExpr

namespace Conformance

structure StructDecl where
  name : String
  generics : List (TypeParam Ty)
  fields : Bindings Ty
  wheres : List (WhereClause Ty)
  span : Option Span
deriving DecidableEq

structure UnionDecl where
  name : String
  generics : List (TypeParam Ty)
  variants : List Ty
  span : Option Span
deriving DecidableEq

-- A method of an interface; one with a default body need not be implemented.
structure Method where
  sig : Signature Ty
  hasDefault : Bool
deriving DecidableEq

structure InterfaceDecl where
  name : String
  generics : List (TypeParam Ty) := []
  -- The shape that implementing types must have; without one any concrete type will do.
  selfPattern : Option TypeExpr := none
  methods : Bindings Method := ∅
  wheres : List (WhereClause Ty) := []
  span : Option Span := none
deriving DecidableEq

structure AliasDecl where
  name : String
  generics : List (TypeParam Ty)
  target : Ty
  span : Option Span
deriving DecidableEq

-- What a name can be bound to. A function is bound to the type of a function or of an
-- overload set.
inductive Declaration where
  | struct (decl : StructDecl)
  | union (decl : UnionDecl)
  | interface (decl : InterfaceDecl)
  | alias (decl : AliasDecl)
  | function (type : Ty)
deriving DecidableEq

def InterfaceDecl.genericNames (decl : InterfaceDecl) : List String :=
  TypeParam.names decl.generics

def InterfaceDecl.toTy (decl : InterfaceDecl) : Ty :=
  .declared .interface decl.name decl.genericNames

namespace Declaration

def kindName : Declaration → String
  | .struct _ => "struct"
  | .union _ => "union"
  | .interface _ => "interface"
  | .alias _ => "type alias"
  | .function _ => "function"

def arity : Declaration → Nat
  | .struct decl => decl.generics.length
  | .union decl => decl.generics.length
  | .interface decl => decl.generics.length
  | .alias decl => decl.generics.length
  | .function _ => 0

-- The type meant by the name alone.
def toTy : Declaration → Ty
  | .struct decl => .declared .struct decl.name (TypeParam.names decl.generics)
  | .union decl => .declared .union decl.name (TypeParam.names decl.generics)
  | .interface decl => decl.toTy
  | .alias decl => .alias decl.name decl.target
  | .function type => type

def isFunction : Declaration → Bool
  | .function _ => true
  | _ => false

end Declaration

end Conformance
