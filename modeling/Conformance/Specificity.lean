import Conformance.Implementation

namespace Conformance

-- An implementation that applies to a subject, with what matching found out.
structure Survivor where
  impl : Implementation
  substitution : Substitution
  args : List Ty
  score : Nat
deriving DecidableEq

def Survivor.label (survivor : Survivor) (subject : Ty) : String :=
  survivor.impl.candidateLabel subject survivor.substitution survivor.args

-- All labels of the second set and more.
def strictSuperset (a b : List String) : Bool :=
  !a.isEmpty && b.length < a.length && b.all a.contains

def properSubset (a b : List String) : Bool :=
  !a.isEmpty && a.length < b.length && a.all b.contains

-- Compares two restrictions to the members of a union. No restriction is the most
-- specific, then the narrower one; different restrictions of one size are held equal.
-- Nothing is decided between equal restrictions.
def compareVariants (a b : List String) : Option Ordering :=
  match a.isEmpty, b.isEmpty with
  | false, true => some .lt
  | true, false => some .gt
  | true, true => none
  | false, false =>
      if properSubset a b then some .gt
      else if properSubset b a then some .lt
      else if a ≠ b then some (compare b.length a.length)
      else none

-- Which of two survivors is more specific: the concrete one, then the more constrained,
-- then the one with the narrower union, then the one that matched more, and last, where
-- that is asked for, the one of the user.
def Survivor.compare (preferUser : Bool) (a b : Survivor) : Ordering :=
  if a.impl.isConcrete ≠ b.impl.isConcrete then
    if a.impl.isConcrete then .gt else .lt
  else if strictSuperset a.impl.constraintKeys b.impl.constraintKeys then .gt
  else if strictSuperset b.impl.constraintKeys a.impl.constraintKeys then .lt
  else
    match compareVariants a.impl.variants b.impl.variants with
    | some decided => decided
    | none =>
        match Ord.compare a.score b.score with
        | .eq =>
            if preferUser ∧ a.impl.isBuiltin ≠ b.impl.isBuiltin then
              if a.impl.isBuiltin then .lt else .gt
            else .eq
        | decided => decided

-- The best candidate of a scan so far, and the later ones that tie with it.
structure Scan (α : Type) where
  best : α
  ties : List α

namespace Scan

variable {α : Type}

def contenders (scan : Scan α) : List α := scan.best :: scan.ties

-- A better candidate starts the scan anew and an equal one joins the ties. Where the
-- candidate is not better than the best one, the best one is also asked whether it is
-- worse than the candidate.
def step (cmp : α → α → Ordering) (scan : Scan α) (candidate : α) : Scan α :=
  match cmp candidate scan.best with
  | .gt => ⟨candidate, []⟩
  | .lt => scan
  | .eq =>
      match cmp scan.best candidate with
      | .lt => ⟨candidate, []⟩
      | .eq => { scan with ties := scan.ties ++ [candidate] }
      | .gt => scan

def run (cmp : α → α → Ordering) (first : α) (rest : List α) : Scan α :=
  rest.foldl (step cmp) ⟨first, []⟩

end Scan

-- The result of a choice among candidates.
inductive Choice (α : Type) where
  | winner (candidate : α)
  | tied (candidates : List α)

-- Of these pairs of interfaces the first is preferred on a tie, and its implementations
-- also serve the second.
def priorityPairs : List (String × String) := [("Eq", "PartialEq"), ("Ord", "PartialOrd")]

-- The preferred one of a tie between exactly one candidate of each name.
def preferred? {α : Type} (name : α → String) (pair : String × String) (tied : List α) : Option α :=
  if tied.all fun candidate => name candidate = pair.1 || name candidate = pair.2 then
    match tied.filter (fun candidate => name candidate = pair.1),
        tied.filter (fun candidate => name candidate = pair.2) with
    | [candidate], [_] => some candidate
    | _, _ => none
  else none

-- Chooses the most specific candidate. Candidates of a priority pair are told apart by
-- the names of their interfaces.
def choose {α : Type} (cmp : α → α → Ordering) (name : α → String) (first : α) (rest : List α) :
    Choice α :=
  let contenders := (Scan.run cmp first rest).contenders
  match contenders with
  | [only] => .winner only
  | tied =>
      match priorityPairs.findSome? fun pair => preferred? name pair tied with
      | some candidate => .winner candidate
      | none => .tied tied

end Conformance
