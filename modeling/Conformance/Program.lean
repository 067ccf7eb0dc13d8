import Conformance.Ty.Basic
import Conformance.TypeExpr

namespace Conformance

-- A where-clause as it is written.
structure WhereExpr where
  subject : TypeExpr
  bounds : List TypeExpr
deriving DecidableEq

structure ParamDef where
  name : String
  type : Option TypeExpr
deriving DecidableEq

-- A function, or a method of an interface. Of the body only its presence is known.
structure FunctionDef where
  name : String
  generics : List (TypeParam TypeExpr)
  params : List ParamDef
  result : Option TypeExpr
  wheres : List WhereExpr
  hasBody : Bool
  span : Span
deriving DecidableEq

structure StructDef where
  name : String
  generics : List (TypeParam TypeExpr)
  fields : List (String × TypeExpr)
  wheres : List WhereExpr
  span : Span
deriving DecidableEq

structure UnionDef where
  name : String
  generics : List (TypeParam TypeExpr)
  variants : List TypeExpr
  span : Span
deriving DecidableEq

structure InterfaceDef where
  name : String
  generics : List (TypeParam TypeExpr)
  selfPattern : Option TypeExpr
  methods : List FunctionDef
  wheres : List WhereExpr
  span : Span
deriving DecidableEq

structure AliasDef where
  name : String
  generics : List (TypeParam TypeExpr)
  target : TypeExpr
  wheres : List WhereExpr
  span : Span
deriving DecidableEq

structure ImplDef where
  name : Option String
  interface : String
  args : List TypeExpr
  generics : List (TypeParam TypeExpr)
  target : TypeExpr
  wheres : List WhereExpr
  methods : List FunctionDef
  span : Span
deriving DecidableEq

inductive Item where
  | struct (item : StructDef)
  | union (item : UnionDef)
  | interface (item : InterfaceDef)
  | alias (item : AliasDef)
  | function (item : FunctionDef)
  | impl (item : ImplDef)
deriving DecidableEq

-- The declarations of a program, in source order.
abbrev Program := List Item

namespace FunctionDef

-- The type names that a function is written with, bounds apart.
def typeNames (item : FunctionDef) : List String :=
  (item.params.flatMap fun param => (param.type.map TypeExpr.typeNames).getD []) ++
    (item.result.map TypeExpr.typeNames).getD [] ++
      item.wheres.flatMap fun clause => clause.subject.typeNames

end FunctionDef

namespace ImplDef

-- The type names that the head of an implementation is written with, bounds apart.
def typeNames (item : ImplDef) : List String :=
  item.target.typeNames ++ item.args.flatMap TypeExpr.typeNames ++
    item.wheres.flatMap fun clause => clause.subject.typeNames

end ImplDef

end Conformance
