import Conformance.Constraint
import Conformance.Registry
import Conformance.SelfPattern
import Conformance.Specificity
import Conformance.Ty.Matching

namespace Conformance

structure Options where
  -- How many goals may be open at once.
  maxDepth : Nat := 64
  -- Whether an implementation of the user beats a built-in one that is otherwise equal.
  preferUser : Bool := true
deriving DecidableEq

structure Resolver where
  env : Environment
  registry : Registry
  options : Options := {}

-- Arguments of an interface agree where one of them is open or both say the same. No
-- arguments at all agree with any.
def argsCompatible (actual expected : List Ty) : Bool :=
  expected.isEmpty ||
    (actual.length == expected.length &&
      (actual.zip expected).all fun (a, b) =>
        a.isUnknown || b.isUnknown || a.isParam || b.isParam || a.equivalent b)

-- The interfaces whose implementations serve a lookup.
def servingInterfaces (interface : String) : List String :=
  interface :: (priorityPairs.filter fun pair => pair.2 = interface).map Prod.fst

-- What becomes of a candidate for a goal.
inductive Assessment where
  -- The target does not match the subject.
  | mismatch
  | rejected (detail : String)
  | survives (survivor : Survivor)

namespace Assessment

def survivor? : Assessment → Option Survivor
  | .survives survivor => some survivor
  | _ => none

-- The longest detail counts as the best, and of several longest ones the first.
def bestDetail (assessments : List Assessment) : String :=
  assessments.foldl
    (fun best assessment =>
      match assessment with
      | .rejected detail => if best.utf8ByteSize < detail.utf8ByteSize then detail else best
      | _ => best)
    ""

end Assessment

-- Assesses all candidates for a goal, inside the goals that are open around it.
abbrev Explorer := Goal → List Goal → List Assessment

namespace Substitution

-- Binds the parameters of an interface to the arguments of an implementation, which may
-- mention the parameters bound before. Names that are bound already stay as they are.
def bindGenerics : List (TypeParam Ty) → List Ty → Substitution → Substitution
  | [], _, s => s
  | generic :: generics, args, s =>
      let value := (args.head?.map (Ty.substitute · s)).getD .unknown
      bindGenerics generics args.tail (s.insertIfNew generic.name value)

-- Completes what a match has found: `Self` is the subject, the parameters of the
-- interface and its constructor placeholders are bound, and what is left is unknown.
def complete (s : Substitution) (env : Environment) (impl : Implementation) (subject : Ty) :
    Substitution :=
  let withSelf := s.insert "Self" subject
  let withGenerics := bindGenerics impl.interface.generics impl.args withSelf
  let withConstructors := bindConstructors withGenerics env impl.interface subject
  (Match.close ⟨withConstructors, 0⟩ impl.generics).substitution

end Substitution

-- The first obligation of a list that does not hold, and why.
structure ObligationFailure where
  obligation : Obligation
  detail : String
deriving DecidableEq

mutual
-- Whether a type implements an interface, given how to look for an implementation. What
-- is unknown or a parameter implements everything. A nullable type and a union without
-- a name may do so through what they are made of, and an interface implements itself.
def implementsBy (resolve : Ty → Outcome) (interface : String) (args : List Ty) : Ty → Outcome
  | .unknown => .resolved (.trivial .unknown interface)
  | .param name => .resolved (.trivial (.param name) interface)
  | .nullable inner =>
      let direct := resolve (.nullable inner)
      if direct.isResolved then direct
      else
        let through := implementsBy resolve interface args inner
        if through.isResolved || through.hasReason || !direct.hasReason then through else direct
  | .anyOf members =>
      let direct := resolve (.anyOf members)
      if direct.isResolved then direct
      else
        match firstFailing resolve interface args members with
        | some outcome => if outcome.hasReason || !direct.hasReason then outcome else direct
        | none => .resolved (.trivial (.anyOf members) interface)
  | subject =>
      match subject.asInterface? with
      | some (name, subjectArgs) =>
          if name = interface ∧ argsCompatible subjectArgs args then
            .resolved (.trivial subject interface)
          else resolve subject
      | none => resolve subject
-- The outcome of the first type that does not implement the interface.
def firstFailing (resolve : Ty → Outcome) (interface : String) (args : List Ty) :
    List Ty → Option Outcome
  | [] => none
  | member :: members =>
      let outcome := implementsBy resolve interface args member
      if outcome.isResolved then firstFailing resolve interface args members else some outcome
end

namespace Resolver

-- Opens a goal inside others, unless one of them is the same or there is no room for
-- another. Below the last level there is nothing to explore with.
def explore (r : Resolver) (below : Option Explorer) (goals : List Goal) (goal : Goal) :
    Except GoalFault (List Assessment) :=
  if goals.any fun opened => opened.key = goal.key then .error (.cyclic goal)
  else
    match below with
    | none => .error (.tooDeep r.options.maxDepth goal)
    | some explorer => .ok (explorer goal goals)

def compare (r : Resolver) (a b : Survivor) : Ordering := a.compare r.options.preferUser b

-- The most specific of the survivors decides.
def conclude (r : Resolver) (goal : Goal) (assessments : List Assessment) : Outcome :=
  match assessments.filterMap Assessment.survivor? with
  | [] =>
      .unsatisfied {
        subject := goal.subject.render
        interface := interfaceLabel goal.interface goal.args
        detail := Assessment.bestDetail assessments }
  | first :: rest =>
      match choose r.compare (fun survivor => survivor.impl.interfaceName) first rest with
      | .winner survivor =>
          .resolved {
            interface := goal.interface
            label := survivor.label goal.subject
            substitution := survivor.substitution
            score := survivor.score
            isBuiltin := survivor.impl.isBuiltin }
      | .tied survivors =>
          .ambiguous {
            interface := goal.interface
            subject := goal.subject.render
            candidates := labelSet (survivors.map fun survivor => survivor.label goal.subject) }

-- Looks for an implementation, inside the goals that are open.
def resolveIn (r : Resolver) (below : Option Explorer) (goals : List Goal) (subject : Ty)
    (interface : String) (args : List Ty) : Outcome :=
  let goal := Goal.lookup subject interface args
  match r.explore below goals goal with
  | .ok assessments => r.conclude goal assessments
  | .error fault => .unsatisfied ⟨subject.render, interfaceLabel interface args, fault.message⟩

def implementsIn (r : Resolver) (below : Option Explorer) (goals : List Goal) (subject : Ty)
    (interface : String) (args : List Ty) : Outcome :=
  implementsBy (fun t => r.resolveIn below goals t interface args) interface args subject

-- Why an obligation does not hold, if it does not.
def obligationFault? (r : Resolver) (below : Option Explorer) (goals : List Goal)
    (obligation : Obligation) : Option String :=
  match r.env.checkedInterface obligation.constraint with
  | .error fault => some (obligation.inContext fault.message)
  | .ok interface =>
      if obligation.subject.isUnknown || obligation.subject.isParam then none
      else
        let outcome := r.implementsIn below goals obligation.subject interface.name interface.args
        if outcome.isResolved then none else some (obligation.inContext outcome.message)

def firstFailure? (r : Resolver) (below : Option Explorer) (goals : List Goal)
    (obligations : List Obligation) : Option ObligationFailure :=
  obligations.findSome? fun obligation =>
    (r.obligationFault? below goals obligation).map fun detail => ⟨obligation, detail⟩

-- The target of a blanket implementation is an interface, and the subject matches if it
-- implements that. Among several ways to do so the most specific counts.
def matchInterface (r : Resolver) (below : Option Explorer) (goals : List Goal) (subject : Ty)
    (interface : String) (targetArgs : List Ty) (generics : List (TypeParam Ty)) : Option Match :=
  match r.explore below goals (Goal.target subject interface) with
  | .error _ => none
  | .ok assessments =>
      let matches? (survivor : Survivor) : Option (Survivor × Match) :=
        (Ty.matchArgs survivor.args targetArgs generics).map fun found => (survivor, found)
      match (assessments.filterMap Assessment.survivor?).filterMap matches? with
      | [] => none
      | first :: rest =>
          match choose (fun a b => r.compare a.1 b.1) (fun a => a.1.impl.interfaceName)
              first rest with
          | .winner candidate => some candidate.2
          | .tied _ => none

-- Matches a subject against the target of an implementation.
def matchTargetIn (r : Resolver) (below : Option Explorer) (goals : List Goal)
    (subject target : Ty) (generics : List (TypeParam Ty)) : Option Match :=
  match target.asInterface? with
  | none => Ty.matchType subject target generics
  | some (interface, targetArgs) =>
      if subject.isUnknown then none
      else
        match subject.asInterface? with
        | some (name, subjectArgs) =>
            if name = interface then Ty.matchArgs subjectArgs targetArgs generics
            else r.matchInterface below goals subject interface targetArgs generics
        | none => r.matchInterface below goals subject interface targetArgs generics

-- Assesses one candidate: its target must match the subject, its arguments must agree
-- with those asked for, and its obligations must hold.
def assess (r : Resolver) (below : Option Explorer) (goals : List Goal) (goal : Goal)
    (impl : Implementation) : Assessment :=
  match r.matchTargetIn below goals goal.subject impl.target impl.generics with
  | none => .mismatch
  | some found =>
      let s := Substitution.complete found.substitution r.env impl goal.subject
      let args := impl.args.map (Ty.substitute · s)
      let label := impl.candidateLabel goal.subject s args
      if !argsCompatible args goal.args then
        .rejected (label ++ ": interface arguments do not match expected " ++
          interfaceLabel goal.interface goal.args)
      else
        match r.firstFailure? below goals (impl.obligations.map (Obligation.substitute · s)) with
        | some failure =>
            .rejected (if failure.detail.startsWith label then failure.detail
              else label ++ ": " ++ failure.detail)
        | none => .survives ⟨impl, s, args, found.score⟩

-- The explorer for a number of goals that may still be opened. Its nested goals have
-- one level less.
def explorer (r : Resolver) : Nat → Option Explorer
  | 0 => none
  | room + 1 => some fun goal goals =>
      (r.registry.candidates (servingInterfaces goal.interface)).map
        (r.assess (r.explorer room) (goal :: goals) goal)

-- The explorer with which a lookup starts.
def start (r : Resolver) : Option Explorer := r.explorer r.options.maxDepth

-- Looks for an implementation in the registry alone.
def resolve (r : Resolver) (subject : Ty) (interface : String) (args : List Ty) : Outcome :=
  r.resolveIn r.start [] subject interface args

-- Like `resolve`, and takes types that implement an interface through their parts or by
-- being that interface.
def implements (r : Resolver) (subject : Ty) (interface : String) (args : List Ty) : Outcome :=
  r.implementsIn r.start [] subject interface args

-- Matches a subject against the target of an implementation, outside of any goal.
def matchTarget (r : Resolver) (subject target : Ty) (generics : List (TypeParam Ty)) :
    Option Match :=
  r.matchTargetIn r.start [] subject target generics

-- The first obligation that fails under a substitution, if there is one.
def failure? (r : Resolver) (obligations : List Obligation) (s : Substitution) :
    Option ObligationFailure :=
  r.firstFailure? r.start [] (obligations.map (Obligation.substitute · s))

-- What is wrong with an obligation, as a problem to be reported.
def obligationProblem? (r : Resolver) (obligation : Obligation) : Option Problem :=
  match r.env.checkedInterface obligation.constraint with
  | .error fault => some (.constraint obligation.place fault)
  | .ok interface =>
      if obligation.subject.isUnknown || obligation.subject.isParam then none
      else
        match r.implements obligation.subject interface.name interface.args with
        | .resolved _ => none
        | .ambiguous ambiguity => some (.ambiguousImplementation ambiguity)
        | .unsatisfied refusal => some (.unsatisfied (some obligation.place) refusal)

-- Checks every obligation on its own, with a diagnostic for each that fails.
def evaluate (r : Resolver) (obligations : List Obligation) : List Diagnostic :=
  obligations.filterMap fun obligation =>
    (r.obligationProblem? obligation).map fun problem => ⟨problem, obligation.node⟩

end Resolver

end Conformance
