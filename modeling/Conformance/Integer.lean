import Conformance.Scalar

namespace Conformance

-- The range of an integer kind, kept as two words of the widest width: `least` is
-- read in two's complement and `greatest` as an unsigned number, so that the ends of
-- both widest kinds fit.
structure Bounds where
  bits : Nat
  signed : Bool
  least : BitVec 128
  greatest : BitVec 128
deriving DecidableEq

namespace Bounds

-- The ends of a signed range are cut out of the widest word by shifting: the lowest
-- number with its sign, the highest one without its sign bit.
def ofSigned (bits : Nat) : Bounds where
  bits := bits
  signed := true
  least := (BitVec.intMin 128).sshiftRight (128 - bits)
  greatest := BitVec.allOnes 128 >>> (128 - bits + 1)

def ofUnsigned (bits : Nat) : Bounds where
  bits := bits
  signed := false
  least := 0
  greatest := BitVec.allOnes 128 >>> (128 - bits)

-- A negative value is only held against the lower end; a value that is not negative
-- reads the same with and without its sign.
def contains (bounds : Bounds) (value : BitVec 128) : Bool :=
  if value.slt bounds.least then false else value.slt 0 || value.ule bounds.greatest

end Bounds

namespace IntegerKind

def bits (kind : IntegerKind) : Nat := kind.width.bits

def bounds (kind : IntegerKind) : Bounds :=
  if kind.signed then Bounds.ofSigned kind.bits else Bounds.ofUnsigned kind.bits

def smallestSigned? (bits : Nat) : Option IntegerKind :=
  (Width.all.map (IntegerKind.mk true)).find? fun kind => bits ≤ kind.bounds.bits

def smallestUnsigned? (bits : Nat) : Option IntegerKind :=
  (Width.all.map (IntegerKind.mk false)).find? fun kind => bits ≤ kind.bounds.bits

end IntegerKind

-- Two operands for which no integer kind is wide enough.
structure WidthExceeded where
  left : IntegerKind
  right : IntegerKind
  needed : Nat
deriving DecidableEq

def WidthExceeded.message (fault : WidthExceeded) : String :=
  "integer operands " ++ fault.left.name ++ " and " ++ fault.right.name ++ " require " ++
    toString fault.needed ++ " bits, exceeding available widths"

namespace IntegerKind

-- Kinds of equal signedness meet in the wider one. Mixed kinds need one more bit, to
-- have both ranges in a signed kind; where no signed kind is wide enough, the unsigned
-- operand is taken if it is at least as wide as the other.
def promote (left right : IntegerKind) : Except WidthExceeded IntegerKind :=
  let l := left.bounds
  let r := right.bounds
  let widest := max l.bits r.bits
  if l.signed = r.signed then
    match if l.signed then smallestSigned? widest else smallestUnsigned? widest with
    | some kind => .ok kind
    | none => .error ⟨left, right, widest⟩
  else
    match smallestSigned? (widest + 1) with
    | some kind => .ok kind
    | none =>
        let unsigned := if l.signed then right else left
        if widest ≤ unsigned.bounds.bits then .ok unsigned
        else .error ⟨left, right, widest + 1⟩

end IntegerKind

end Conformance
