import Conformance.Diagnostic
import Conformance.Environment

namespace Conformance

-- The number of type arguments that a named constructor takes, if the name is known.
-- Built-in names come before declared ones, and a function is no constructor.
def Environment.constructorArity? (env : Environment) (name : String) : Option Nat :=
  match Builtin.ofName? name with
  | some builtin => some builtin.arity
  | none =>
      if (Scalar.ofName? name).isSome then some 0
      else
        match env.lookup? name with
        | some (.function _) => none
        | some decl => some decl.arity
        | none => none

def Environment.takesArguments (env : Environment) (name : String) : Bool :=
  (env.constructorArity? name).any (0 < ·)

-- Whether a name in a self pattern stands for anything that takes its place. The
-- generics of the interface do, and so does every name that no type has. Names of
-- aliases and functions are free in this sense too.
def Environment.isPlaceholder (env : Environment) (generics : List String) (name : String) : Bool :=
  if name = "" ∨ name = "Self" ∨ name = "_" then false
  else if name ∈ generics then true
  else if (Scalar.ofName? name).isSome || (Builtin.ofName? name).isSome then false
  else
    match env.lookup? name with
    | some (.struct _) => false
    | some (.union _) => false
    | some (.interface _) => false
    | _ => true

namespace TypeExpr

-- A pattern that is just `Self` asks for nothing.
def isTrivialPattern (pattern : TypeExpr) : Bool := pattern.simpleName? = some "Self"

-- Where an argument of a pattern is left open, the constructor alone will do as well.
def allowsBareConstructor : TypeExpr → Bool
  | .generic _ args _ => args.any isWildcard
  | _ => false

-- Whether a target names a constructor without all of its arguments.
def targetsBareConstructor (env : Environment) (implGenerics : List String) : TypeExpr → Bool
  | .simple name _ => if name ∈ implGenerics then false else env.takesArguments name
  | .generic base args _ =>
      if args.any isWildcard then true
      else
        match base.baseName? with
        | none => false
        | some name =>
            if name ∈ implGenerics then false
            else (env.constructorArity? name).any (args.length < ·)
  | _ => false

-- Two argument lists of different lengths may only differ by wildcards at the end.
def excessIsOpen (pattern target : List TypeExpr) : Bool :=
  (pattern.drop target.length).all isWildcard && (target.drop pattern.length).all isWildcard

end TypeExpr

-- What decides the meaning of the names in a self pattern.
structure PatternScope where
  env : Environment
  generics : List String
  -- Generics of the implementation, which may stand for constructors.
  implGenerics : List String := []

-- What the placeholders of a pattern stand for.
abbrev Placeholders := Bindings TypeExpr

namespace PatternScope

def isPlaceholder (scope : PatternScope) (name : String) : Bool :=
  scope.env.isPlaceholder scope.generics name

def isConstructor (scope : PatternScope) (name : String) : Bool :=
  name ∈ scope.implGenerics || scope.env.takesArguments name

-- The first occurrence of a placeholder binds it, and every later one must agree.
def bind (name : String) (target : TypeExpr) (bound : Placeholders) : Bool × Placeholders :=
  match bound.get? name with
  | some existing => (existing.equivalent target, bound)
  | none => (true, bound.insert name target)

mutual
-- Whether a target has the shape of a pattern. Bindings made on the way to a failure
-- are kept.
def fits (scope : PatternScope) : (pattern target : TypeExpr) → Placeholders → Bool × Placeholders
  | .wildcard _, _, bound => (true, bound)
  | .simple name _, target, bound =>
      if name = "_" then (true, bound)
      else if scope.isPlaceholder name then bind name target bound
      else (target.simpleName? = some name, bound)
  | .generic base args _, target, bound =>
      let bare := args.any TypeExpr.isWildcard
      match target with
      | .simple name _ =>
          if bare && scope.isConstructor name then fits scope base target bound else (false, bound)
      | .generic targetBase targetArgs _ =>
          -- A constructor placeholder stands for the whole target.
          let (baseFits, bound) :=
            match base.simpleName? with
            | some name =>
                if bare && scope.isPlaceholder name then bind name target bound
                else fits scope base targetBase bound
            | none => fits scope base targetBase bound
          if baseFits && TypeExpr.excessIsOpen args targetArgs then fitsAll scope args targetArgs bound
          else (false, bound)
      | _ => (false, bound)
  | pattern, target, bound => (pattern.equivalent target, bound)
termination_by structural pattern => pattern
-- Position by position as far as both lists go, up to the first failure.
def fitsAll (scope : PatternScope) :
    (patterns targets : List TypeExpr) → Placeholders → Bool × Placeholders
  | pattern :: patterns, target :: targets, bound =>
      match fits scope pattern target bound with
      | (true, bound) => fitsAll scope patterns targets bound
      | (false, bound) => (false, bound)
  | _, _, bound => (true, bound)
termination_by structural patterns => patterns
end

-- Whether a target fits a pattern on its own.
def accepts (scope : PatternScope) (pattern target : TypeExpr) : Bool :=
  (scope.fits pattern target ∅).1

end PatternScope

namespace InterfaceDecl

-- Why a type expression cannot be implemented for, if it cannot. Without a pattern of
-- its own, an interface is not implemented for constructors.
def targetFault? (interface : InterfaceDecl) (env : Environment) (implGenerics : List String)
    (target : TypeExpr) : Option Problem :=
  let owner := "impl " ++ interface.name ++ " for " ++ target.render
  match interface.selfPattern.filter fun pattern => !pattern.isTrivialPattern with
  | some pattern =>
      let scope : PatternScope := ⟨env, interface.genericNames, implGenerics⟩
      if scope.accepts pattern target then none else some (.targetShape owner pattern)
  | none =>
      if target.targetsBareConstructor env implGenerics then some (.bareTarget owner) else none

end InterfaceDecl

namespace TypeExpr

mutual
-- The names in constructor position, from left to right.
def constructorNames : TypeExpr → List String
  | .generic base args _ =>
      (match base with
        | .simple name _ => [name]
        | _ => base.constructorNames) ++ allConstructorNames args
  | .function params returns _ => allConstructorNames params ++ returns.constructorNames
  | .nullable inner _ => inner.constructorNames
  | .result inner _ => inner.constructorNames
  | .union members _ => allConstructorNames members
  | _ => []
def allConstructorNames : List TypeExpr → List String
  | [] => []
  | e :: es => e.constructorNames ++ allConstructorNames es
end

end TypeExpr

namespace InterfaceDecl

-- The placeholders of the self pattern that stand for constructors, each once.
def constructorPlaceholders (interface : InterfaceDecl) (env : Environment) : List String :=
  match interface.selfPattern with
  | none => []
  | some pattern =>
      (pattern.constructorNames.filter (env.isPlaceholder interface.genericNames)).eraseDups

end InterfaceDecl

-- The constructor of a type without its arguments. An instance is looked up for the
-- parameters of its declaration.
def Ty.bareConstructor (env : Environment) : Ty → Ty
  | .alias _ target => target.bareConstructor env
  | .applied base _ => base.bareConstructor env
  | .unary constructor _ => .unary constructor .unknown
  | .map _ _ => .map .unknown .unknown
  | .inst name _ =>
      match env.lookup? name with
      | some (.struct decl) => (Declaration.struct decl).toTy
      | some (.union decl) => (Declaration.union decl).toTy
      | _ => .declared .struct name []
  | t => t

namespace Substitution

-- Whether a placeholder can still be given a meaning: it has none, or one that says
-- nothing.
def isOpen (s : Substitution) (name : String) : Bool :=
  match s.get? name with
  | none => true
  | some .unknown => true
  | some (.param existing) => existing = name
  | some _ => false

-- Lets the constructor placeholders of an interface stand for the constructor of a
-- subject, where they are still open.
def bindConstructors (s : Substitution) (env : Environment) (interface : InterfaceDecl)
    (subject : Ty) : Substitution :=
  let constructor := subject.bareConstructor env
  if constructor.isUnknown then s
  else
    (interface.constructorPlaceholders env).foldl
      (fun s name => if isOpen s name then s.insert name constructor else s) s

end Substitution

end Conformance
