import Conformance.Ty.Basic

namespace Conformance

namespace Ty

mutual
-- Whether a type mentions a parameter, or a declared constructor whose parameters are
-- left open. A declared constructor at the head of an application is not left open.
def usesParams : Ty → Bool
  | .param _ => true
  | .declared _ _ params => !params.isEmpty
  | .inst _ args => anyUsesParams args
  | .anyOf members => anyUsesParams members
  | .alias _ target => target.usesParams
  | .applied base args =>
      (match base with
        | .declared _ _ _ => false
        | _ => base.usesParams) || anyUsesParams args
  | .nullable inner => inner.usesParams
  | .function sig => signatureUsesParams sig
  | .unary _ arg => arg.usesParams
  | .map key value => key.usesParams || value.usesParams
  | _ => false
def anyUsesParams : List Ty → Bool
  | [] => false
  | t :: ts => t.usesParams || anyUsesParams ts
def signatureUsesParams : Signature Ty → Bool
  | ⟨_, params, result, _⟩ => anyUsesParams params || result.usesParams
end

mutual
-- Whether something inside the type is unknown. Overload sets count as known.
def containsUnknown : Ty → Bool
  | .unknown => true
  | .inst _ args => anyContainsUnknown args
  | .anyOf members => anyContainsUnknown members
  | .alias _ target => target.containsUnknown
  | .applied base args => base.containsUnknown || anyContainsUnknown args
  | .nullable inner => inner.containsUnknown
  | .function sig => signatureContainsUnknown sig
  | .unary _ arg => arg.containsUnknown
  | .map key value => key.containsUnknown || value.containsUnknown
  | _ => false
def anyContainsUnknown : List Ty → Bool
  | [] => false
  | t :: ts => t.containsUnknown || anyContainsUnknown ts
def signatureContainsUnknown : Signature Ty → Bool
  | ⟨_, params, result, _⟩ => anyContainsUnknown params || result.containsUnknown
end

mutual
-- How concrete a type is: one point for each concrete node.
def specificity : Ty → Nat
  | .scalar _ => 1
  | .declared _ _ _ => 1
  | .inst _ args => 1 + totalSpecificity args
  | .anyOf members => totalSpecificity members
  | .alias _ target => target.specificity
  | .applied base args => base.specificity + totalSpecificity args
  | .nullable inner => inner.specificity
  | .function sig => signatureSpecificity sig
  | .unary _ arg => 1 + arg.specificity
  | .map key value => 1 + key.specificity + value.specificity
  | _ => 0
def totalSpecificity : List Ty → Nat
  | [] => 0
  | t :: ts => t.specificity + totalSpecificity ts
def signatureSpecificity : Signature Ty → Nat
  | ⟨_, params, result, _⟩ => 1 + totalSpecificity params + result.specificity
end

@[simp] theorem anyUsesParams_eq (ts : List Ty) : anyUsesParams ts = ts.any usesParams := by
  induction ts with
  | nil => rfl
  | cons t ts ih => simp [anyUsesParams, ih]

@[simp] theorem anyContainsUnknown_eq (ts : List Ty) :
    anyContainsUnknown ts = ts.any containsUnknown := by
  induction ts with
  | nil => rfl
  | cons t ts ih => simp [anyContainsUnknown, ih]

end Ty

end Conformance
