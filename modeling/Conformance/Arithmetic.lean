import Conformance.Diagnostic

namespace Conformance

namespace Ty

def ratioName : String := "Ratio"

-- Ratios are the values of the struct of that name.
def isRatio (t : Ty) : Bool :=
  match t.resolveAlias with
  | .declared .struct name _ => name = ratioName
  | .inst name _ => name = ratioName
  | _ => false

def isFloat : Ty → Bool
  | .scalar (.float _) => true
  | _ => false

def isNumeric (t : Ty) : Bool :=
  (match t.resolveAlias with
    | .scalar (.integer _) => true
    | .scalar (.float _) => true
    | _ => false) || t.isRatio

-- The wider float kind that two operands ask for.
def promoteFloats (left right : Ty) : FloatKind :=
  let wide := Ty.scalar (.float .f64)
  if left = wide ∨ right = wide then .f64 else .f32

-- The type of a binary operation. Nothing is known where an operand is open; texts can
-- be added; ratios take over, then floats; a quotient of integers is a float, and other
-- integers meet in a common kind.
def binaryResult (operator : String) (left right : Ty) : Except Problem Ty :=
  let l := left.resolveAlias
  let r := right.resolveAlias
  if l.isUnknown || r.isUnknown || l.isParam || r.isParam then .ok .unknown
  else if operator = "+" ∧ l = .string ∧ r = .string then .ok .string
  else if !l.isNumeric || !r.isNumeric then .error (.numericOperands operator left right)
  else if l.isRatio || r.isRatio then .ok (.declared .struct ratioName [])
  else if l.isFloat || r.isFloat then .ok (.scalar (.float (promoteFloats l r)))
  else if operator = "/" then .ok (.scalar (.float .f64))
  else
    match l, r with
    | .scalar (.integer a), .scalar (.integer b) =>
        match a.promote b with
        | .ok kind => .ok (.scalar (.integer kind))
        | .error fault => .error (.integerWidth operator fault)
    | _, _ => .ok .unknown

end Ty

end Conformance
