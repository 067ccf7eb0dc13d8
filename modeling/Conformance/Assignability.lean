import Conformance.Environment
import Conformance.Ty.Equivalence

namespace Conformance

mutual
-- Whether a test holds of every member of a union without a name, also inside nested
-- ones, and of the type itself where it is no such union. What is unknown passes.
def Ty.everyMember (accepts : Ty → Bool) : Ty → Bool
  | .unknown => true
  | .alias _ target => target.everyMember accepts
  | .anyOf members => Ty.everyMemberOf accepts members
  | t => accepts t
def Ty.everyMemberOf (accepts : Ty → Bool) : List Ty → Bool
  | [] => true
  | t :: ts => t.everyMember accepts && Ty.everyMemberOf accepts ts
end

namespace Environment

mutual
-- Whether a value of the actual type can be given where the expected type is asked for.
-- A declared union takes its variants.
def assigns (env : Environment) : (expected actual : Ty) → Bool
  | .alias _ target, actual => assigns env target actual
  | .unknown, _ => true
  | .nullable target, actual =>
      match actual.resolveAlias with
      | .unknown => true
      | .nullable inner => assigns env target inner
      | plain => plain = .nil || assigns env target plain
  | .anyOf members, actual =>
      actual.everyMember fun plain => (memberTests env members).any fun test => test plain
  | expected, actual =>
      match actual.resolveAlias with
      | .unknown => true
      | plain =>
          plain.equivalent expected ||
            (expected.nominal?.bind fun n => env.lookupUnion? n.name).any fun decl =>
              decl.variants.any plain.equivalent
termination_by structural expected => expected
def memberTests (env : Environment) : List Ty → List (Ty → Bool)
  | [] => []
  | t :: ts => assigns env t :: memberTests env ts
termination_by structural members => members
end

end Environment

end Conformance
