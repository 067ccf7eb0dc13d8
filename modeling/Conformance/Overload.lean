import Conformance.Assignability
import Conformance.Resolution

namespace Conformance

-- What a name is bound to after one more function of that name. A signature that is
-- there already adds nothing. Only functions can be joined.
def mergeFunction (existing : Option Ty) (incoming : Signature Ty) : Option Ty :=
  match existing with
  | none => some (.function incoming)
  | some (.function current) =>
      if Ty.signaturesEquivalent current incoming then some (.function current)
      else some (.overload [current, incoming])
  | some (.overload sigs) =>
      if sigs.any fun sig => Ty.signaturesEquivalent sig incoming then some (.overload sigs)
      else some (.overload (sigs ++ [incoming]))
  | some _ => none

namespace Signature

-- A last parameter that is nullable may be left out.
def acceptsArity (sig : Signature Ty) (count : Nat) : Bool :=
  count = sig.params.length ||
    (sig.params.getLast?.any Ty.isNullable && count + 1 = sig.params.length)

def specificity (sig : Signature Ty) : Nat := Ty.totalSpecificity sig.params

end Signature

-- The order in which overloads are preferred: by score, then those without parameters
-- of their own, then by how specific they are.
structure Rank where
  score : Nat
  isPlain : Bool
  specificity : Nat
deriving DecidableEq

def Rank.compare (a b : Rank) : Ordering :=
  (Ord.compare a.score b.score).then <|
    (Ord.compare a.isPlain.toNat b.isPlain.toNat).then <|
      Ord.compare a.specificity b.specificity

-- An overload that accepts the arguments of a call.
structure CallCandidate where
  index : Nat
  sig : Signature Ty
  found : Match

namespace CallCandidate

def rank (candidate : CallCandidate) : Rank :=
  ⟨candidate.found.score, !candidate.sig.isGeneric, candidate.sig.specificity⟩

-- Puts a candidate before all those that do not rank above it.
def insertRanked (candidate : CallCandidate) : List CallCandidate → List CallCandidate
  | [] => [candidate]
  | first :: rest =>
      if first.rank.compare candidate.rank = .gt then first :: insertRanked candidate rest
      else candidate :: first :: rest

-- The best ranks first; candidates of one rank stay in order.
def ranked (candidates : List CallCandidate) : List CallCandidate :=
  candidates.foldr insertRanked []

end CallCandidate

-- The overload chosen for a call, as it applies there.
structure Selection where
  index : Nat
  function : Signature Ty
  substitution : Substitution
  score : Nat
deriving DecidableEq

namespace Resolver

-- Gives an argument to a parameter. A parameter that mentions type parameters is
-- matched; others take what can be assigned to them, or what implements them.
def accept? (r : Resolver) (param arg : Ty) (s : Substitution) : Option Match :=
  if arg.isUnknown then some ⟨s, 0⟩
  else if param.usesParams then (Ty.unify param arg s).map fun found => ⟨found.substitution, 1⟩
  else if r.env.assigns param arg then some ⟨s, if param.isNullable then 1 else 2⟩
  else
    match param.asInterface? with
    | some (interface, args) =>
        if (r.implements arg interface args).isResolved then some ⟨s, 1⟩ else none
    | none => none

def acceptAll? (r : Resolver) : (params args : List Ty) → Substitution → Option Match
  | param :: params, arg :: args, s => do
      let first ← r.accept? param arg s
      let found ← r.acceptAll? params args first.substitution
      return found.addScore first.score
  | _, _, s => some ⟨s, 0⟩

-- Whether a function accepts the arguments of a call and its own constraints then hold.
def applies? (r : Resolver) (name : String) (sig : Signature Ty) (args : List Ty) : Option Match :=
  if sig.acceptsArity args.length then do
    let found ← r.acceptAll? sig.params args ∅
    let obligations := Obligation.ofClauses ("fn " ++ name) sig.generics sig.wheres none
    if (r.failure? obligations found.substitution).isNone then some found else none
  else none

def callCandidates (r : Resolver) (name : String) (sigs : List (Signature Ty)) (args : List Ty) :
    List CallCandidate :=
  sigs.zipIdx.filterMap fun (sig, index) =>
    (r.applies? name sig args).map fun found => ⟨index, sig, found⟩

-- Chooses among the functions of one name. The best rank must not be shared.
def selectOverload (r : Resolver) (name : String) (sigs : List (Signature Ty)) (args : List Ty) :
    Except Problem Selection :=
  match CallCandidate.ranked (r.callCandidates name sigs args) with
  | [] => .error (.noMatchingOverload name)
  | best :: others =>
      if others.head?.any fun runnerUp => runnerUp.rank = best.rank then
        .error (.ambiguousOverload name)
      else
        .ok {
          index := best.index
          function := best.sig.substitute best.found.substitution
          substitution := best.found.substitution
          score := best.found.score }

-- Chooses the function meant by a call. Of a callee about which nothing is known, any
-- call is fine and nothing is known about the result.
def call (r : Resolver) (name : String) (callee : Ty) (args : List Ty) : Except Problem Selection :=
  match callee.resolveAlias with
  | .function sig => r.selectOverload name [sig] args
  | .overload sigs => r.selectOverload name sigs args
  | .unknown => .ok ⟨0, .plain args .unknown, ∅, 0⟩
  | _ => r.selectOverload name [] args

end Resolver

end Conformance
