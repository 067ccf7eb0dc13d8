import Conformance.Methods
import Conformance.Scope

namespace Conformance

-- Names that can never be parameters.
def isReservedName (name : String) : Bool :=
  name = "" || name = "_" || name = "Self" || name.toList.contains '.' ||
    (Scalar.ofName? name).isSome || (Builtin.ofName? name).isSome

-- The generics and where-clauses of an item after its undeclared names are made
-- parameters of it.
structure InferredGenerics where
  generics : List (TypeParam TypeExpr)
  wheres : List WhereExpr

namespace Environment

-- The names among those an item uses that it declares implicitly, each once.
def implicitNames (env : Environment) (declared : List (TypeParam TypeExpr))
    (used : List String) : List String :=
  (used.filter fun name =>
    !(TypeParam.names declared).contains name && !env.declaresType name &&
      !isReservedName name).eraseDups

-- A where-clause on an implicit parameter becomes a bound of it, and the others stay.
def inferGenerics (env : Environment) (declared : List (TypeParam TypeExpr))
    (wheres : List WhereExpr) (used : List String) : InferredGenerics :=
  let implicit := env.implicitNames declared used
  let isOn (name : String) (clause : WhereExpr) : Bool := clause.subject.simpleName? = some name
  { generics := declared ++ implicit.map fun name =>
      ⟨name, (wheres.filter (isOn name)).flatMap WhereExpr.bounds⟩
    wheres := wheres.filter fun clause => !implicit.any fun name => isOn name clause }

end Environment

-- The parameters of an item before their bounds are known.
def openParams (params : List (TypeParam TypeExpr)) : List (TypeParam Ty) :=
  params.map fun param => ⟨param.name, []⟩

namespace StructDef

-- What other declarations may see of an item before it is read.
def shell (item : StructDef) : StructDecl :=
  ⟨item.name, openParams item.generics, ∅, [], some item.span⟩

def elaborate (item : StructDef) (env : Environment) : StructDecl :=
  let scope : Scope := { env := env, generics := TypeParam.names item.generics }
  { name := item.name
    generics := scope.resolveParams item.generics
    fields := Bindings.ofList (item.fields.map fun (name, type) => (name, scope.resolve type))
    wheres := scope.resolveWheres item.wheres
    span := some item.span }

end StructDef

namespace UnionDef

def shell (item : UnionDef) : UnionDecl :=
  ⟨item.name, openParams item.generics, [], some item.span⟩

def elaborate (item : UnionDef) (env : Environment) : UnionDecl :=
  let scope : Scope := { env := env, generics := TypeParam.names item.generics }
  { name := item.name
    generics := scope.resolveParams item.generics
    variants := item.variants.map scope.resolve
    span := some item.span }

end UnionDef

namespace AliasDef

def shell (item : AliasDef) : AliasDecl :=
  ⟨item.name, openParams item.generics, .unknown, some item.span⟩

def elaborate (item : AliasDef) (env : Environment) : AliasDecl :=
  let scope : Scope := { env := env, generics := TypeParam.names item.generics }
  { name := item.name
    generics := scope.resolveParams item.generics
    target := scope.resolve item.target
    span := some item.span }

end AliasDef

namespace InterfaceDef

def shell (item : InterfaceDef) : InterfaceDecl :=
  { name := item.name
    generics := openParams item.generics
    selfPattern := item.selfPattern
    span := some item.span }

-- The constructor placeholders of the self pattern may be used in the methods.
def elaborate (item : InterfaceDef) (env : Environment) : InterfaceDecl :=
  let placeholders := item.shell.constructorPlaceholders env
  let scope : Scope :=
    { env := env, generics := TypeParam.names item.generics ++ placeholders }
  { name := item.name
    generics := scope.resolveParams item.generics
    selfPattern := item.selfPattern
    methods := Bindings.ofList (item.methods.map fun method =>
      (method.name, ⟨scope.signature method, method.hasBody⟩))
    wheres := scope.resolveWheres item.wheres
    span := some item.span }

end InterfaceDef

namespace FunctionDef

def elaborate (item : FunctionDef) (env : Environment) : Signature Ty :=
  let inferred := env.inferGenerics item.generics item.wheres item.typeNames
  let scope : Scope := { env := env }
  scope.signature { item with generics := inferred.generics, wheres := inferred.wheres }

end FunctionDef

namespace Item

-- The name of an item that declares a type.
def typeName? : Item → Option String
  | .struct item => some item.name
  | .union item => some item.name
  | .interface item => some item.name
  | .alias item => some item.name
  | .function _ => none
  | .impl _ => none

def span : Item → Span
  | .struct item => item.span
  | .union item => item.span
  | .interface item => item.span
  | .alias item => item.span
  | .function item => item.span
  | .impl item => item.span

def shell? : Item → Option Declaration
  | .struct item => some (.struct item.shell)
  | .union item => some (.union item.shell)
  | .interface item => some (.interface item.shell)
  | .alias item => some (.alias item.shell)
  | .function _ => none
  | .impl _ => none

def alias? : Item → Option AliasDef
  | .alias item => some item
  | _ => none

def function? : Item → Option FunctionDef
  | .function item => some item
  | _ => none

def impl? : Item → Option ImplDef
  | .impl item => some item
  | _ => none

end Item

-- What comes of an implementation block: the implementation, unless it cannot be
-- used at all, and the problems found on the way.
structure ImplReading where
  impl : Option Implementation
  problems : List Problem

namespace ImplDef

-- What is wrong with the number of arguments given to an interface.
def arityProblems (interface : InterfaceDecl) (owner : String) (given : Nat) : List Problem :=
  let expected := interface.generics.length
  if given = expected then []
  else if expected = 0 then [.unexpectedArguments interface.name]
  else [.implArity owner expected given]

-- The methods of an implementation; of several of one name the first counts.
def methodTable (scope : Scope) (methods : List FunctionDef) : Bindings (Signature Ty) :=
  methods.foldl (fun table method => table.insertIfNew method.name (scope.signature method)) ∅

-- The implementation that a block stands for, once its interface is known.
def build (item : ImplDef) (env : Environment) (interface : InterfaceDecl)
    (inferred : InferredGenerics) : Implementation :=
  let outer : Scope := { env := env, generics := TypeParam.names inferred.generics }
  let target := outer.resolve item.target
  let scope := { outer with selfType := target }
  Implementation.deriveObligations
    { name := item.name
      interface := interface
      generics := scope.resolveParams inferred.generics
      target := target
      args := item.args.map scope.resolve
      methods := methodTable scope item.methods
      wheres := scope.resolveWheres inferred.wheres
      span := some item.span }

-- Reads a block. One for something that is no interface, or for a target that the
-- interface does not allow, is dropped; other problems do not prevent its use.
def elaborate (item : ImplDef) (env : Environment) : ImplReading :=
  match env.lookup? item.interface with
  | none => ⟨none, [.constraint "impl" (.unknownInterface item.interface)]⟩
  | some (.interface interface) =>
      let inferred := env.inferGenerics item.generics item.wheres item.typeNames
      let names := TypeParam.names inferred.generics
      let impl := item.build env interface inferred
      let arity := arityProblems interface impl.ownerLabel item.args.length
      match interface.targetFault? env names item.target with
      | some fault => ⟨none, arity ++ [fault]⟩
      | none => ⟨some impl, arity ++ impl.methodProblems env names⟩
  | some _ => ⟨none, [.constraint "impl" (.notAnInterface item.interface)]⟩

end ImplDef

end Conformance
