import Conformance.Scalar

namespace Conformance

-- A type parameter with the interfaces it is bounded by. The bounds are types, or
-- type expressions where the parameter is still source text.
structure TypeParam (τ : Type) where
  name : String
  bounds : List τ
deriving DecidableEq

-- A where-clause: what is constrained, the name it is reported under, and by what.
structure WhereClause (τ : Type) where
  param : String
  subject : τ
  bounds : List τ
deriving DecidableEq

structure Signature (τ : Type) where
  generics : List (TypeParam τ)
  params : List τ
  result : τ
  wheres : List (WhereClause τ)
deriving DecidableEq

def TypeParam.names {τ : Type} (params : List (TypeParam τ)) : List String :=
  params.map TypeParam.name

namespace Signature

variable {τ : Type}

-- A signature without parameters of its own.
def plain (params : List τ) (result : τ) : Signature τ := ⟨[], params, result, []⟩

def isGeneric (sig : Signature τ) : Bool := !sig.generics.isEmpty

end Signature

-- What a declared type constructor was declared as.
inductive Family where
  | struct
  | union
  | interface
deriving DecidableEq

-- The built-in constructors of one argument.
inductive Unary where
  | array
  | range
  | iterator
  | future
deriving DecidableEq

def Unary.name : Unary → String
  | .array => "Array"
  | .range => "Range"
  | .iterator => "Iterator"
  | .future => "Future"

-- The built-in constructors by name.
inductive Builtin where
  | unary (constructor : Unary)
  | map
deriving DecidableEq

namespace Builtin

def arity : Builtin → Nat
  | .unary _ => 1
  | .map => 2

def ofName? : String → Option Builtin
  | "Array" => some (.unary .array)
  | "Map" => some .map
  | "Range" => some (.unary .range)
  | "Iterator" => some (.unary .iterator)
  | "Future" => some (.unary .future)
  | _ => none

end Builtin

inductive Ty where
  -- Missing information, which fits everything.
  | unknown
  | scalar (kind : Scalar)
  | param (name : String)
  -- A declared constructor by its name, with the names of its parameters.
  | declared (family : Family) (name : String) (params : List String)
  -- A struct with its arguments.
  | inst (name : String) (args : List Ty)
  -- A union without a name.
  | anyOf (members : List Ty)
  | alias (name : String) (target : Ty)
  -- A constructor, or a parameter standing for one, applied to arguments.
  | applied (base : Ty) (args : List Ty)
  | nullable (inner : Ty)
  | function (sig : Signature Ty)
  -- Functions of one name.
  | overload (sigs : List (Signature Ty))
  | unary (constructor : Unary) (arg : Ty)
  | map (key value : Ty)

namespace Ty

instance : Inhabited Ty := ⟨.unknown⟩

def string : Ty := .scalar (.primitive .string)

def bool : Ty := .scalar (.primitive .bool)

def i32 : Ty := .scalar (.integer ⟨true, .w32⟩)

def nil : Ty := .scalar (.primitive .nil)

mutual
def beq : Ty → Ty → Bool
  | .unknown, .unknown => true
  | .scalar a, .scalar b => a = b
  | .param a, .param b => a = b
  | .declared f a ps, .declared g b qs => f = g && a = b && ps = qs
  | .inst a xs, .inst b ys => a = b && beqAll xs ys
  | .anyOf xs, .anyOf ys => beqAll xs ys
  | .alias a x, .alias b y => a = b && beq x y
  | .applied x xs, .applied y ys => beq x y && beqAll xs ys
  | .nullable x, .nullable y => beq x y
  | .function f, .function g => beqSignature f g
  | .overload fs, .overload gs => beqSignatures fs gs
  | .unary c x, .unary d y => c = d && beq x y
  | .map k v, .map l w => beq k l && beq v w
  | _, _ => false
def beqAll : List Ty → List Ty → Bool
  | [], [] => true
  | x :: xs, y :: ys => beq x y && beqAll xs ys
  | _, _ => false
def beqSignature : Signature Ty → Signature Ty → Bool
  | ⟨generics, params, result, wheres⟩, g =>
      beqParams generics g.generics && beqAll params g.params && beq result g.result &&
        beqWheres wheres g.wheres
def beqSignatures : List (Signature Ty) → List (Signature Ty) → Bool
  | [], [] => true
  | f :: fs, g :: gs => beqSignature f g && beqSignatures fs gs
  | _, _ => false
def beqParams : List (TypeParam Ty) → List (TypeParam Ty) → Bool
  | [], [] => true
  | ⟨name, bounds⟩ :: ps, q :: qs => name = q.name && beqAll bounds q.bounds && beqParams ps qs
  | _, _ => false
def beqWheres : List (WhereClause Ty) → List (WhereClause Ty) → Bool
  | [], [] => true
  | ⟨name, subject, bounds⟩ :: ws, v :: vs =>
      name = v.param && beq subject v.subject && beqAll bounds v.bounds && beqWheres ws vs
  | _, _ => false
end

mutual
theorem beq_iff : (a b : Ty) → (beq a b = true ↔ a = b)
  | .unknown, b => by cases b <;> simp [beq]
  | .scalar _, b => by cases b <;> simp [beq]
  | .param _, b => by cases b <;> simp [beq]
  | .declared _ _ _, b => by cases b <;> simp [beq, and_assoc]
  | .inst _ xs, b => by cases b <;> simp [beq, beqAll_iff xs]
  | .anyOf xs, b => by cases b <;> simp [beq, beqAll_iff xs]
  | .alias _ x, b => by cases b <;> simp [beq, beq_iff x]
  | .applied x xs, b => by cases b <;> simp [beq, beq_iff x, beqAll_iff xs]
  | .nullable x, b => by cases b <;> simp [beq, beq_iff x]
  | .function f, b => by cases b <;> simp [beq, beqSignature_iff f]
  | .overload fs, b => by cases b <;> simp [beq, beqSignatures_iff fs]
  | .unary _ x, b => by cases b <;> simp [beq, beq_iff x]
  | .map k v, b => by cases b <;> simp [beq, beq_iff k, beq_iff v]
theorem beqAll_iff : (xs ys : List Ty) → (beqAll xs ys = true ↔ xs = ys)
  | [], ys => by cases ys <;> simp [beqAll]
  | x :: xs, ys => by cases ys <;> simp [beqAll, beq_iff x, beqAll_iff xs]
theorem beqSignature_iff : (f g : Signature Ty) → (beqSignature f g = true ↔ f = g)
  | ⟨generics, params, result, wheres⟩, ⟨_, _, _, _⟩ => by
      simp [beqSignature, beqParams_iff generics, beqAll_iff params, beq_iff result,
        beqWheres_iff wheres, and_assoc]
theorem beqSignatures_iff : (fs gs : List (Signature Ty)) → (beqSignatures fs gs = true ↔ fs = gs)
  | [], gs => by cases gs <;> simp [beqSignatures]
  | f :: fs, gs => by cases gs <;> simp [beqSignatures, beqSignature_iff f, beqSignatures_iff fs]
theorem beqParams_iff : (ps qs : List (TypeParam Ty)) → (beqParams ps qs = true ↔ ps = qs)
  | [], qs => by cases qs <;> simp [beqParams]
  | ⟨_, bounds⟩ :: ps, [] => by simp [beqParams]
  | ⟨_, bounds⟩ :: ps, ⟨_, _⟩ :: qs => by
      simp [beqParams, beqAll_iff bounds, beqParams_iff ps]
theorem beqWheres_iff : (ws vs : List (WhereClause Ty)) → (beqWheres ws vs = true ↔ ws = vs)
  | [], vs => by cases vs <;> simp [beqWheres]
  | ⟨_, subject, bounds⟩ :: ws, [] => by simp [beqWheres]
  | ⟨_, subject, bounds⟩ :: ws, ⟨_, _, _⟩ :: vs => by
      simp [beqWheres, beq_iff subject, beqAll_iff bounds, beqWheres_iff ws, and_assoc]
end

instance : DecidableEq Ty := fun a b => decidable_of_iff _ (beq_iff a b)

def isUnknown : Ty → Bool
  | .unknown => true
  | _ => false

def isParam : Ty → Bool
  | .param _ => true
  | _ => false

def isNullable : Ty → Bool
  | .nullable _ => true
  | _ => false

-- The type behind a chain of aliases.
def resolveAlias : Ty → Ty
  | .alias _ target => target.resolveAlias
  | t => t

-- The interface a type refers to, with its arguments. The constructor of an
-- application may itself be reached through aliases.
def asInterface? (t : Ty) : Option (String × List Ty) :=
  match t.resolveAlias with
  | .declared .interface name _ => some (name, [])
  | .applied base args =>
      match base.resolveAlias with
      | .declared .interface name _ => some (name, args)
      | _ => none
  | _ => none

end Ty

-- The kinds of heads a nominal type can have.
inductive Head where
  | declared (family : Family)
  | builtin
  | nullable
deriving DecidableEq

-- A type seen as a named constructor with arguments. It is `bare` when a declared
-- constructor that takes parameters stands without arguments.
structure Nominal where
  name : String
  head : Head
  args : List Ty
  bare : Bool

namespace Nominal

-- Two nominal types are of one constructor.
def sameHead (a b : Nominal) : Bool := a.name = b.name && a.head = b.head

end Nominal

namespace Ty

-- An application takes its head from its base and its arguments from itself.
def nominal? : Ty → Option Nominal
  | .declared family name params => some ⟨name, .declared family, [], !params.isEmpty⟩
  | .inst name args => some ⟨name, .declared .struct, args, false⟩
  | .applied base args => base.nominal?.map fun n => ⟨n.name, n.head, args, false⟩
  | .alias _ target => target.nominal?
  | .nullable inner => some ⟨"?", .nullable, [inner], false⟩
  | .unary constructor arg => some ⟨constructor.name, .builtin, [arg], false⟩
  | .map key value => some ⟨"Map", .builtin, [key, value], false⟩
  | _ => none

end Ty

end Conformance
