import Conformance.Ty.Equivalence
import Conformance.Ty.Substitution

namespace Conformance

-- What a successful match found: the types its parameters stand for, and a point for
-- every concrete node of the target that was met.
structure Match where
  substitution : Substitution
  score : Nat
deriving DecidableEq

namespace Match

def addScore (m : Match) (points : Nat) : Match := { m with score := points + m.score }

def withoutScore (m : Match) : Match := { m with score := 0 }

-- Parameters that the match did not bind are unknown.
def close (m : Match) (params : List (TypeParam Ty)) : Match :=
  { m with substitution :=
      params.foldl (fun s param => s.insertIfNew param.name .unknown) m.substitution }

end Match

namespace Ty

-- A parameter that is bound already must agree with what it is bound to; an unknown
-- binding is still open.
def bindParam (name : String) (actual : Ty) (s : Substitution) : Option Match :=
  match s.get? name with
  | some .unknown => some ⟨s.insert name actual, 0⟩
  | some bound => if equivalent bound actual then some ⟨s, 0⟩ else none
  | none => some ⟨s.insert name actual, 0⟩

-- A target, with the way to match a subject against it.
structure Slot where
  target : Ty
  accept : Ty → Substitution → Option Match

namespace Slot

-- Takes the first slot with this very target.
def takeIdentical (subject : Ty) : List Slot → Option (Slot × List Slot)
  | [] => none
  | slot :: rest =>
      if slot.target = subject then some (slot, rest)
      else (takeIdentical subject rest).map fun (found, others) => (found, slot :: others)

-- Takes the first slot that accepts the subject.
def takeAccepting (subject : Ty) (s : Substitution) : List Slot → Option (Match × List Slot)
  | [] => none
  | slot :: rest =>
      match slot.accept subject s with
      | some m => some (m, rest)
      | none => (takeAccepting subject s rest).map fun (m, others) => (m, slot :: others)

-- Gives identical members their slots; the members left over come back in order.
def pairIdentical : List Ty → List Slot → Match → Option (List Ty × List Slot × Match)
  | [], slots, m => some ([], slots, m)
  | member :: members, slots, m =>
      match takeIdentical member slots with
      | some (slot, others) => do
          let found ← slot.accept member m.substitution
          pairIdentical members others (found.addScore m.score)
      | none => do
          let (left, others, found) ← pairIdentical members slots m
          return (member :: left, others, found)

-- Every member takes the first slot left that accepts it, and no choice is undone.
def pairGreedily : List Ty → List Slot → Match → Option Match
  | [], _, m => some m
  | member :: members, slots, m => do
      let (found, others) ← takeAccepting member m.substitution slots
      pairGreedily members others (found.addScore m.score)

-- Unions without names match as sets of the same size.
def pair (members : List Ty) (slots : List Slot) (s : Substitution) : Option Match :=
  if members.length = slots.length then do
    let (left, others, m) ← pairIdentical members slots ⟨s, 0⟩
    pairGreedily left others m
  else none

end Slot

-- The constructor of a subject that is a constructor with arguments.
def constructor? : Ty → Option Ty
  | .applied base _ => some base
  | .inst name _ => some (.declared .struct name [])
  | .unary constructor _ => some (.unary constructor .unknown)
  | .map _ _ => some (.map .unknown .unknown)
  | _ => none

mutual
-- Matches a subject against a target, extending a substitution. Unknown types match
-- without binding anything; a parameter takes the subject as it is written; all other
-- targets look through the aliases of the subject.
def unify : (target subject : Ty) → Substitution → Option Match
  | .unknown, _, s => some ⟨s, 0⟩
  | .param name, subject, s => if subject.isUnknown then some ⟨s, 0⟩ else bindParam name subject s
  | .alias _ target, subject, s => unify target subject.resolveAlias s
  | .scalar kind, subject, s =>
      match subject.resolveAlias with
      | .unknown => some ⟨s, 0⟩
      | .scalar other => if other = kind then some ⟨s, 1⟩ else none
      | _ => none
  | .declared family name _, subject, s =>
      match subject.resolveAlias with
      | .unknown => some ⟨s, 0⟩
      | actual =>
          match actual.nominal? with
          | some n => if n.name = name ∧ n.head = .declared family then some ⟨s, 1⟩ else none
          | none => none
  | .inst name args, subject, s =>
      match subject.resolveAlias with
      | .unknown => some ⟨s, 0⟩
      | actual =>
          match actual.nominal? with
          | some n =>
              if n.name = name ∧ n.head = .declared .struct then
                if n.bare then some ⟨s, 1⟩
                else if !args.isEmpty ∧ args.length < n.args.length then none
                else (unifyAll args n.args s).map (Match.addScore · 1)
              else none
          | none => none
  | .anyOf members, subject, s =>
      match subject.resolveAlias with
      | .unknown => some ⟨s, 0⟩
      | .anyOf actuals => Slot.pair actuals (slots members) s
      | actual => (Slot.takeAccepting actual s (slots members)).map Prod.fst
  | .applied base args, subject, s =>
      match subject.resolveAlias with
      | .unknown => some ⟨s, 0⟩
      | actual =>
          match base with
          -- A parameter as constructor takes the constructor of the subject and earns nothing.
          | .param name => do
              let n ← actual.nominal?
              if n.args.length = args.length then
                let constructor ← actual.constructor?
                let m ← bindParam name constructor s
                unifyAll args n.args m.substitution
              else none
          | _ =>
              match actual.nominal?, base.nominal? with
              | some n, some head =>
                  if n.sameHead head ∧ n.head ≠ .nullable then
                    if n.bare then some ⟨s, 1⟩
                    else if !args.isEmpty ∧ args.length < n.args.length then none
                    else (unifyAll args n.args s).map (Match.addScore · 1)
                  else none
              | _, _ => none
  -- A nullable target also takes nothing and the plain type, which earn no points.
  | .nullable target, subject, s =>
      match subject.resolveAlias with
      | .unknown => some ⟨s, 0⟩
      | .nullable inner => (unify target inner s).map (Match.addScore · 1)
      | actual =>
          if actual = .nil then some ⟨s, 0⟩ else (unify target actual s).map Match.withoutScore
  | .function sig, subject, s =>
      match subject.resolveAlias with
      | .unknown => some ⟨s, 0⟩
      | .function actual => (unifySignature sig actual s).map (Match.addScore · 1)
      | _ => none
  | .overload _, subject, s =>
      match subject.resolveAlias with
      | .unknown => some ⟨s, 0⟩
      | _ => none
  | .unary constructor arg, subject, s =>
      match subject.resolveAlias with
      | .unknown => some ⟨s, 0⟩
      | actual =>
          match actual.nominal? with
          | some n =>
              if n.name = constructor.name ∧ n.head = .builtin ∧ n.args.length ≤ 1 then
                (unify arg (n.args.getD 0 .unknown) s).map (Match.addScore · 1)
              else none
          | none => none
  | .map key value, subject, s =>
      match subject.resolveAlias with
      | .unknown => some ⟨s, 0⟩
      | actual =>
          match actual.nominal? with
          | some n =>
              if n.name = "Map" ∧ n.head = .builtin ∧ n.args.length ≤ 2 then do
                let m ← unify key (n.args.getD 0 .unknown) s
                let found ← unify value (n.args.getD 1 .unknown) m.substitution
                return found.addScore (1 + m.score)
              else none
          | none => none
termination_by structural target => target
-- Position by position; a missing argument of the subject is unknown.
def unifyAll : (targets subjects : List Ty) → Substitution → Option Match
  | [], _, s => some ⟨s, 0⟩
  | target :: targets, subjects, s => do
      let m ← unify target (subjects.headD .unknown) s
      let found ← unifyAll targets subjects.tail m.substitution
      return found.addScore m.score
termination_by structural targets => targets
def unifySignature : (target subject : Signature Ty) → Substitution → Option Match
  | ⟨_, params, result, _⟩, actual, s =>
      if actual.params.length = params.length then do
        let m ← unifyAll params actual.params s
        let found ← unify result actual.result m.substitution
        return found.addScore m.score
      else none
termination_by structural target => target
def slots : List Ty → List Slot
  | [] => []
  | target :: targets => ⟨target, unify target⟩ :: slots targets
termination_by structural targets => targets
end

def matchType (subject target : Ty) (params : List (TypeParam Ty)) : Option Match :=
  (unify target subject ∅).map (·.close params)

-- Matches arguments position by position; no targets at all match any arguments.
def matchArgs (actuals targets : List Ty) (params : List (TypeParam Ty)) : Option Match :=
  if targets.isEmpty then some (Match.close ⟨∅, 0⟩ params)
  else if actuals.length = targets.length then
    (unifyAll targets actuals ∅).map (·.close params)
  else none

end Ty

end Conformance
