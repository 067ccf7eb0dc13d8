import Conformance.Text

namespace Conformance

-- Types as they are written in source text.
inductive TypeExpr where
  | simple (name : String) (span : Span)
  | generic (base : TypeExpr) (args : List TypeExpr) (span : Span)
  | nullable (inner : TypeExpr) (span : Span)
  | result (inner : TypeExpr) (span : Span)
  | function (params : List TypeExpr) (returns : TypeExpr) (span : Span)
  | union (members : List TypeExpr) (span : Span)
  | wildcard (span : Span)

namespace TypeExpr

instance : Inhabited TypeExpr := ⟨.wildcard default⟩

def span : TypeExpr → Span
  | .simple _ span => span
  | .generic _ _ span => span
  | .nullable _ span => span
  | .result _ span => span
  | .function _ _ span => span
  | .union _ span => span
  | .wildcard span => span

-- The wildcard may also be written as the name `_`.
def isWildcard : TypeExpr → Bool
  | .wildcard _ => true
  | .simple name _ => name = "_"
  | _ => false

def simpleName? : TypeExpr → Option String
  | .simple name _ => some name
  | _ => none

-- The name at the head of an application, also through nested applications.
def baseName? : TypeExpr → Option String
  | .simple name _ => some name
  | .generic base _ _ => base.baseName?
  | _ => none

mutual
def render : TypeExpr → String
  | .simple name _ => if name.isEmpty then "unknown" else name
  | .generic base args _ => spaced base.render (renderAll args)
  | .nullable inner _ => inner.render ++ "?"
  | .result inner _ => "Result " ++ inner.render
  | .function params returns _ =>
      "fn(" ++ ", ".intercalate (renderAll params) ++ ") -> " ++ returns.render
  | .union members _ =>
      if members.isEmpty then "Union" else " | ".intercalate (renderAll members)
  | .wildcard _ => "_"
def renderAll : List TypeExpr → List String
  | [] => []
  | e :: es => e.render :: renderAll es
end

instance : ToString TypeExpr := ⟨render⟩

mutual
-- The same expression, wherever it stands in the source text.
def equivalent : TypeExpr → TypeExpr → Bool
  | .simple a _, .simple b _ => a = b
  | .generic x xs _, .generic y ys _ => equivalent x y && allEquivalent xs ys
  | .nullable x _, .nullable y _ => equivalent x y
  | .result x _, .result y _ => equivalent x y
  | .function xs x _, .function ys y _ => allEquivalent xs ys && equivalent x y
  | .union xs _, .union ys _ => allEquivalent xs ys
  | .wildcard _, .wildcard _ => true
  | _, _ => false
def allEquivalent : List TypeExpr → List TypeExpr → Bool
  | [], [] => true
  | x :: xs, y :: ys => equivalent x y && allEquivalent xs ys
  | _, _ => false
end

mutual
def beq : TypeExpr → TypeExpr → Bool
  | .simple a s, .simple b t => a = b && s = t
  | .generic x xs s, .generic y ys t => beq x y && beqAll xs ys && s = t
  | .nullable x s, .nullable y t => beq x y && s = t
  | .result x s, .result y t => beq x y && s = t
  | .function xs x s, .function ys y t => beqAll xs ys && beq x y && s = t
  | .union xs s, .union ys t => beqAll xs ys && s = t
  | .wildcard s, .wildcard t => s = t
  | _, _ => false
def beqAll : List TypeExpr → List TypeExpr → Bool
  | [], [] => true
  | x :: xs, y :: ys => beq x y && beqAll xs ys
  | _, _ => false
end

mutual
theorem beq_iff : (a b : TypeExpr) → (beq a b = true ↔ a = b)
  | .simple _ _, b => by cases b <;> simp [beq]
  | .generic x xs _, b => by cases b <;> simp [beq, beq_iff x, beqAll_iff xs, and_assoc]
  | .nullable x _, b => by cases b <;> simp [beq, beq_iff x]
  | .result x _, b => by cases b <;> simp [beq, beq_iff x]
  | .function xs x _, b => by cases b <;> simp [beq, beq_iff x, beqAll_iff xs, and_assoc]
  | .union xs _, b => by cases b <;> simp [beq, beqAll_iff xs]
  | .wildcard _, b => by cases b <;> simp [beq]
theorem beqAll_iff : (xs ys : List TypeExpr) → (beqAll xs ys = true ↔ xs = ys)
  | [], ys => by cases ys <;> simp [beqAll]
  | x :: xs, ys => by cases ys <;> simp [beqAll, beq_iff x, beqAll_iff xs]
end

instance : DecidableEq TypeExpr := fun a b => decidable_of_iff _ (beq_iff a b)

mutual
-- Every name that is used as a type, from left to right, with repeats.
def typeNames : TypeExpr → List String
  | .simple name _ => [name]
  | .generic base args _ => base.typeNames ++ allTypeNames args
  | .nullable inner _ => inner.typeNames
  | .result inner _ => inner.typeNames
  | .function params returns _ => allTypeNames params ++ returns.typeNames
  | .union members _ => allTypeNames members
  | .wildcard _ => []
def allTypeNames : List TypeExpr → List String
  | [] => []
  | e :: es => e.typeNames ++ allTypeNames es
end

@[simp] theorem renderAll_eq (es : List TypeExpr) : renderAll es = es.map render := by
  induction es with
  | nil => rfl
  | cons e es ih => simp [renderAll, ih]

@[simp] theorem allTypeNames_eq (es : List TypeExpr) : allTypeNames es = es.flatMap typeNames := by
  induction es with
  | nil => rfl
  | cons e es ih => simp [allTypeNames, ih]

end TypeExpr

end Conformance
