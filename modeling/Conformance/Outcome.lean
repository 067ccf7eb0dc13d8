import Conformance.Ty.Printer
import Conformance.Ty.Substitution

namespace Conformance

-- How a goal is written. The target of a blanket implementation asks in a form of its
-- own, without arguments.
def goalText (subject : Ty) (interface : String) (args : List Ty) (blanket : Bool) : String :=
  subject.render ++ ": " ++
    if blanket then interface ++ " (blanket target)" else interfaceLabel interface args

-- A question that is being answered: does the subject implement the interface? Goals are
-- told apart by their text, which is written once and kept.
structure Goal where
  subject : Ty
  interface : String
  args : List Ty
  blanket : Bool
  key : String
  key_eq : key = goalText subject interface args blanket
deriving DecidableEq

namespace Goal

-- The goal of a lookup.
def lookup (subject : Ty) (interface : String) (args : List Ty) : Goal :=
  ⟨subject, interface, args, false, goalText subject interface args false, rfl⟩

-- The goal of a blanket target.
def target (subject : Ty) (interface : String) : Goal :=
  ⟨subject, interface, [], true, goalText subject interface [] true, rfl⟩

end Goal

-- Why a goal is not opened inside the goals that are open already.
inductive GoalFault where
  | cyclic (goal : Goal)
  | tooDeep (limit : Nat) (goal : Goal)

def GoalFault.message : GoalFault → String
  | .cyclic goal => "cyclic obligation while checking " ++ goal.key
  | .tooDeep limit goal =>
      "obligation depth limit of " ++ toString limit ++ " exceeded while checking " ++ goal.key

-- The implementation found for a subject, with the types that stand for `Self`, for
-- its own parameters and for those of the interface.
structure Resolution where
  interface : String
  label : String
  substitution : Substitution
  score : Nat
  isBuiltin : Bool
deriving DecidableEq

-- A subject that needs no implementation is its own resolution.
def Resolution.trivial (subject : Ty) (interface : String) : Resolution where
  interface := interface
  label := subject.render
  substitution := Bindings.empty.insert "Self" subject
  score := 0
  isBuiltin := false

-- A subject for which nothing was found, with the best reason known, if any.
structure Refusal where
  subject : String
  interface : String
  detail : String
deriving DecidableEq

def Refusal.message (refusal : Refusal) : String :=
  let plain := refusal.subject ++ " does not implement " ++ refusal.interface
  if refusal.detail.isEmpty then plain else plain ++ ": " ++ refusal.detail

-- Several implementations, none of them more specific than the others.
structure Ambiguity where
  interface : String
  subject : String
  candidates : List String
deriving DecidableEq

def Ambiguity.message (ambiguity : Ambiguity) : String :=
  "ambiguous implementations of " ++ ambiguity.interface ++ " for " ++ ambiguity.subject ++ ": " ++
    ", ".intercalate ambiguity.candidates

inductive Outcome where
  | resolved (resolution : Resolution)
  | unsatisfied (refusal : Refusal)
  | ambiguous (ambiguity : Ambiguity)
deriving DecidableEq

namespace Outcome

def isResolved : Outcome → Bool
  | .resolved _ => true
  | _ => false

def message : Outcome → String
  | .resolved resolution => resolution.label
  | .unsatisfied refusal => refusal.message
  | .ambiguous ambiguity => ambiguity.message

-- What is known beyond the bare failure.
def detail : Outcome → String
  | .resolved _ => ""
  | .unsatisfied refusal => refusal.detail
  | .ambiguous ambiguity => ambiguity.message

def hasReason : Outcome → Bool
  | .resolved _ => false
  | .unsatisfied refusal => !refusal.detail.isEmpty
  | .ambiguous _ => true

end Outcome

end Conformance
