import Conformance.Proofs.Exploration

namespace Conformance

-- The resolver hands the open goals down and counts the levels that are left. A session does
-- the same work with one stack of goals that is changed in place: a goal is put on it when it
-- is opened and taken off when it is answered. Calls may nest as deep as a session is given
-- fuel for, and one that needs more has no result.

inductive Event where
  | opened (goal : Goal)
  | refused (fault : GoalFault)
  | closed

-- An event, with the goals that are open after it.
structure Moment where
  event : Event
  goals : List Goal

structure Journal where
  -- The goals that are open now, the innermost first.
  goals : List Goal
  -- What has happened so far.
  moments : List Moment := []

def Journal.note (journal : Journal) (event : Event) (goals : List Goal) : Journal :=
  ⟨goals, journal.moments ++ [⟨event, goals⟩]⟩

abbrev Session := StateT Journal Option

namespace Session

-- Puts a goal on the stack, unless it is there already or the stack is full.
def enter (limit : Nat) (goal : Goal) : Session (Except GoalFault Unit) := fun journal =>
  if journal.goals.any fun opened => opened.key = goal.key then
    some (.error (.cyclic goal), journal.note (.refused (.cyclic goal)) journal.goals)
  else if limit ≤ journal.goals.length then
    some (.error (.tooDeep limit goal), journal.note (.refused (.tooDeep limit goal)) journal.goals)
  else some (.ok (), journal.note (.opened goal) (goal :: journal.goals))

-- Takes the innermost goal off the stack.
def leave : Session Unit := fun journal => some ((), journal.note .closed journal.goals.tail)

def outOfFuel {α : Type} : Session α := fun _ => none

end Session

namespace Resolver

mutual
-- Opens a goal, assesses all candidates for it and closes it again.
def exploreRun (r : Resolver) : Nat → Goal → Session (Except GoalFault (List Assessment))
  | 0, _ => Session.outOfFuel
  | fuel + 1, goal => do
      match ← Session.enter r.options.maxDepth goal with
      | .error fault => return .error fault
      | .ok () =>
          let assessments ← (r.registry.candidates (servingInterfaces goal.interface)).mapM
            (r.assessRun fuel goal)
          Session.leave
          return .ok assessments

def resolveRun (r : Resolver) : Nat → Ty → String → List Ty → Session Outcome
  | 0, _, _, _ => Session.outOfFuel
  | fuel + 1, subject, interface, args => do
      let goal := Goal.lookup subject interface args
      match ← r.exploreRun fuel goal with
      | .ok assessments => return r.conclude goal assessments
      | .error fault =>
          return .unsatisfied ⟨subject.render, interfaceLabel interface args, fault.message⟩

def implementsRun (r : Resolver) : Nat → Ty → String → List Ty → Session Outcome
  | 0, _, _, _ => Session.outOfFuel
  | fuel + 1, subject, interface, args =>
      match subject with
      | .unknown => return .resolved (.trivial .unknown interface)
      | .param name => return .resolved (.trivial (.param name) interface)
      | .nullable inner => do
          let direct ← r.resolveRun fuel (.nullable inner) interface args
          if direct.isResolved then return direct
          else
            let through ← r.implementsRun fuel inner interface args
            return if through.isResolved || through.hasReason || !direct.hasReason then through
              else direct
      | .anyOf members => do
          let direct ← r.resolveRun fuel (.anyOf members) interface args
          if direct.isResolved then return direct
          else
            match ← r.firstFailingRun fuel members interface args with
            | some outcome =>
                return if outcome.hasReason || !direct.hasReason then outcome else direct
            | none => return .resolved (.trivial (.anyOf members) interface)
      | subject =>
          match subject.asInterface? with
          | some (name, subjectArgs) =>
              if name = interface ∧ argsCompatible subjectArgs args then
                return .resolved (.trivial subject interface)
              else r.resolveRun fuel subject interface args
          | none => r.resolveRun fuel subject interface args

def firstFailingRun (r : Resolver) : Nat → List Ty → String → List Ty → Session (Option Outcome)
  | 0, _, _, _ => Session.outOfFuel
  | _ + 1, [], _, _ => return none
  | fuel + 1, member :: members, interface, args => do
      let outcome ← r.implementsRun fuel member interface args
      if outcome.isResolved then r.firstFailingRun fuel members interface args
      else return some outcome

def obligationFaultRun (r : Resolver) : Nat → Obligation → Session (Option String)
  | 0, _ => Session.outOfFuel
  | fuel + 1, obligation =>
      match r.env.checkedInterface obligation.constraint with
      | .error fault => return some (obligation.inContext fault.message)
      | .ok interface =>
          if obligation.subject.isUnknown || obligation.subject.isParam then return none
          else do
            let outcome ← r.implementsRun fuel obligation.subject interface.name interface.args
            return if outcome.isResolved then none else some (obligation.inContext outcome.message)

def firstFailureRun (r : Resolver) : Nat → List Obligation → Session (Option ObligationFailure)
  | 0, _ => Session.outOfFuel
  | fuel + 1, obligations =>
      obligations.findSomeM? fun obligation => do
        let fault ← r.obligationFaultRun fuel obligation
        return fault.map fun detail => ⟨obligation, detail⟩

def matchInterfaceRun (r : Resolver) :
    Nat → Ty → String → List Ty → List (TypeParam Ty) → Session (Option Match)
  | 0, _, _, _, _ => Session.outOfFuel
  | fuel + 1, subject, interface, targetArgs, generics => do
      match ← r.exploreRun fuel (Goal.target subject interface) with
      | .error _ => return none
      | .ok assessments => return r.bestFit targetArgs generics assessments

def matchTargetRun (r : Resolver) :
    Nat → Ty → Ty → List (TypeParam Ty) → Session (Option Match)
  | 0, _, _, _ => Session.outOfFuel
  | fuel + 1, subject, target, generics =>
      match target.asInterface? with
      | none => return Ty.matchType subject target generics
      | some (interface, targetArgs) =>
          if subject.isUnknown then return none
          else
            match subject.asInterface? with
            | some (name, subjectArgs) =>
                if name = interface then return Ty.matchArgs subjectArgs targetArgs generics
                else r.matchInterfaceRun fuel subject interface targetArgs generics
            | none => r.matchInterfaceRun fuel subject interface targetArgs generics

def assessRun (r : Resolver) : Nat → Goal → Implementation → Session Assessment
  | 0, _, _ => Session.outOfFuel
  | fuel + 1, goal, impl => do
      match ← r.matchTargetRun fuel goal.subject impl.target impl.generics with
      | none => return .mismatch
      | some found =>
          let s := Substitution.complete found.substitution r.env impl goal.subject
          let args := impl.args.map (Ty.substitute · s)
          let label := impl.candidateLabel goal.subject s args
          if !argsCompatible args goal.args then
            return .rejected (label ++ ": interface arguments do not match expected " ++
              interfaceLabel goal.interface goal.args)
          else
            match ← r.firstFailureRun fuel (impl.obligations.map (Obligation.substitute · s)) with
            | some failure =>
                return .rejected (if failure.detail.startsWith label then failure.detail
                  else label ++ ": " ++ failure.detail)
            | none => return .survives ⟨impl, s, args, found.score⟩
end

end Resolver

end Conformance
