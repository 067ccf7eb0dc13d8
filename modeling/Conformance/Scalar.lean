namespace Conformance

inductive Primitive where
  | bool
  | char
  | string
  | nil
  | void
  | ioHandle
  | procHandle
deriving DecidableEq

namespace Primitive

def name : Primitive → String
  | .bool => "bool"
  | .char => "char"
  | .string => "String"
  | .nil => "nil"
  | .void => "void"
  | .ioHandle => "IoHandle"
  | .procHandle => "ProcHandle"

-- The text type may also be written in lower case.
def ofName? : String → Option Primitive
  | "bool" => some .bool
  | "char" => some .char
  | "String" => some .string
  | "string" => some .string
  | "nil" => some .nil
  | "void" => some .void
  | "IoHandle" => some .ioHandle
  | "ProcHandle" => some .procHandle
  | _ => none

end Primitive

inductive Width where
  | w8
  | w16
  | w32
  | w64
  | w128
deriving DecidableEq

namespace Width

def bits : Width → Nat
  | .w8 => 8
  | .w16 => 16
  | .w32 => 32
  | .w64 => 64
  | .w128 => 128

def digits : Width → String
  | .w8 => "8"
  | .w16 => "16"
  | .w32 => "32"
  | .w64 => "64"
  | .w128 => "128"

-- All widths, the narrowest first.
def all : List Width := [.w8, .w16, .w32, .w64, .w128]

end Width

structure IntegerKind where
  signed : Bool
  width : Width
deriving DecidableEq

namespace IntegerKind

def name (kind : IntegerKind) : String :=
  (if kind.signed then "i" else "u") ++ kind.width.digits

-- The signed kinds stand before the unsigned ones.
def all : List IntegerKind :=
  Width.all.map (IntegerKind.mk true) ++ Width.all.map (IntegerKind.mk false)

def ofName? (name : String) : Option IntegerKind := all.find? fun kind => kind.name == name

end IntegerKind

inductive FloatKind where
  | f32
  | f64
deriving DecidableEq

namespace FloatKind

def name : FloatKind → String
  | .f32 => "f32"
  | .f64 => "f64"

def ofName? : String → Option FloatKind
  | "f32" => some .f32
  | "f64" => some .f64
  | _ => none

end FloatKind

-- The types that take no arguments and need no declaration.
inductive Scalar where
  | primitive (kind : Primitive)
  | integer (kind : IntegerKind)
  | float (kind : FloatKind)
deriving DecidableEq

namespace Scalar

def name : Scalar → String
  | .primitive kind => kind.name
  | .integer kind => kind.name
  | .float kind => kind.name

-- No name belongs to two families, so the order of the three readings is free.
def ofName? (name : String) : Option Scalar :=
  ((Primitive.ofName? name).map .primitive).or <|
    ((IntegerKind.ofName? name).map .integer).or <|
      (FloatKind.ofName? name).map .float

end Scalar

end Conformance
