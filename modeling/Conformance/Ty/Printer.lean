import Conformance.Text
import Conformance.Ty.Basic

namespace Conformance

namespace Ty

mutual
-- An alias is shown by its name, and an application without arguments like its base.
def render : Ty → String
  | .unknown => "Unknown"
  | .scalar kind => kind.name
  | .param name => name
  | .declared _ name _ => name
  | .inst name args => spaced name (renderAll args)
  | .anyOf members =>
      if members.isEmpty then "Union" else " | ".intercalate (renderAll members)
  | .alias name _ => name
  | .applied base args => spaced base.render (renderAll args)
  | .nullable inner => inner.render ++ "?"
  | .function sig => renderSignature sig
  | .overload sigs => "overloaded(" ++ " & ".intercalate (renderSignatures sigs) ++ ")"
  | .unary constructor arg => constructor.name ++ " " ++ arg.render
  | .map key value => "Map " ++ key.render ++ " " ++ value.render
def renderAll : List Ty → List String
  | [] => []
  | t :: ts => t.render :: renderAll ts
-- The generics and where-clauses of a function are not shown.
def renderSignature : Signature Ty → String
  | ⟨_, params, result, _⟩ =>
      "fn(" ++ ", ".intercalate (renderAll params) ++ ") -> " ++ result.render
def renderSignatures : List (Signature Ty) → List String
  | [] => []
  | sig :: sigs => renderSignature sig :: renderSignatures sigs
end

instance : ToString Ty := ⟨render⟩

@[simp] theorem renderAll_eq (ts : List Ty) : renderAll ts = ts.map render := by
  induction ts with
  | nil => rfl
  | cons t ts ih => simp [renderAll, ih]

@[simp] theorem renderSignatures_eq (sigs : List (Signature Ty)) :
    renderSignatures sigs = sigs.map renderSignature := by
  induction sigs with
  | nil => rfl
  | cons sig sigs ih => simp [renderSignatures, ih]

end Ty

-- An interface with its arguments, as it is written in messages.
def interfaceLabel (interface : String) (args : List Ty) : String :=
  spaced interface (args.map Ty.render)

end Conformance
