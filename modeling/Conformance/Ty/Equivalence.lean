import Conformance.Ty.Basic

namespace Conformance

namespace Ty

mutual
-- Whether two types say the same in a signature: unknown types fit everything, the
-- names of parameters do not count, aliases are looked through, and nominal types are
-- compared by head and arguments, where a bare constructor stands for all its
-- applications. The comparison follows the first type; the second is taken apart by
-- its nominal view.
def equivalent : Ty → Ty → Bool
  | .alias _ target, b => equivalent target b
  | .unknown, _ => true
  | .scalar kind, b =>
      match b.resolveAlias with
      | .unknown => true
      | .scalar other => kind = other
      | _ => false
  | .param _, b =>
      match b.resolveAlias with
      | .unknown => true
      | .param _ => true
      | _ => false
  | .declared family name params, b =>
      match b.resolveAlias with
      | .unknown => true
      | b => b.nominal?.any fun n =>
          name = n.name && .declared family = n.head &&
            (!params.isEmpty || n.bare || n.args.isEmpty)
  | .inst name args, b =>
      match b.resolveAlias with
      | .unknown => true
      | b => b.nominal?.any fun n =>
          name = n.name && .declared .struct = n.head && (n.bare || allEquivalent args n.args)
  | .anyOf members, b =>
      match b.resolveAlias with
      | .unknown => true
      | .anyOf others => allEquivalent members others
      | _ => false
  | .applied base args, b =>
      match b.resolveAlias with
      | .unknown => true
      | b =>
          match base.nominal?, b.nominal? with
          | some head, some n => head.sameHead n && (n.bare || allEquivalent args n.args)
          | _, _ => .applied base args = b
  | .nullable inner, b =>
      match b.resolveAlias with
      | .unknown => true
      | .nullable other => equivalent inner other
      | b => b.nominal?.any fun n =>
          n.name = "?" && n.head = .nullable &&
            match n.args with
            | [other] => equivalent inner other
            | _ => false
  | .function sig, b =>
      match b.resolveAlias with
      | .unknown => true
      | .function other => signaturesEquivalent sig other
      | _ => false
  | .overload sigs, b =>
      match b.resolveAlias with
      | .unknown => true
      | .overload others => allSignaturesEquivalent sigs others
      | _ => false
  | .unary constructor arg, b =>
      match b.resolveAlias with
      | .unknown => true
      | b => b.nominal?.any fun n =>
          n.name = constructor.name && n.head = .builtin &&
            match n.args with
            | [other] => equivalent arg other
            | _ => false
  | .map key value, b =>
      match b.resolveAlias with
      | .unknown => true
      | b => b.nominal?.any fun n =>
          n.name = "Map" && n.head = .builtin &&
            match n.args with
            | [otherKey, otherValue] => equivalent key otherKey && equivalent value otherValue
            | _ => false
termination_by structural a => a
def allEquivalent : List Ty → List Ty → Bool
  | [], [] => true
  | x :: xs, y :: ys => equivalent x y && allEquivalent xs ys
  | _, _ => false
termination_by structural xs => xs
def signaturesEquivalent : Signature Ty → Signature Ty → Bool
  | ⟨_, params, result, _⟩, other =>
      allEquivalent params other.params && equivalent result other.result
termination_by structural f => f
def allSignaturesEquivalent : List (Signature Ty) → List (Signature Ty) → Bool
  | [], [] => true
  | f :: fs, g :: gs => signaturesEquivalent f g && allSignaturesEquivalent fs gs
  | _, _ => false
termination_by structural fs => fs
end

end Ty

end Conformance
