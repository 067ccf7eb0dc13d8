import Conformance.Proofs.DepthLimit

namespace Conformance

-- What is wrong with an obligation, without the place that a report adds.
def Problem.reason : Problem → String
  | .constraint _ fault => fault.message
  | .unsatisfied _ refusal => refusal.message
  | problem => problem.message

namespace Resolver

variable {r : Resolver}

-- Each family of problems that is reported is one way in which the other check fails, and
-- both give the same reason.
theorem obligationFault?_start (obligation : Obligation) :
    r.obligationFault? r.start [] obligation =
      (r.obligationProblem? obligation).map fun problem => obligation.inContext problem.reason := by
  rw [obligationFault?, obligationProblem?]
  cases r.env.checkedInterface obligation.constraint with
  | error fault => rfl
  | ok interface =>
      cases obligation.subject.isUnknown || obligation.subject.isParam with
      | true => rfl
      | false =>
          simp only [implements]
          cases r.implementsIn r.start [] obligation.subject interface.name interface.args with
          | resolved resolution => rfl
          | ambiguous ambiguity => rfl
          | unsatisfied refusal => rfl

theorem firstFailure?_start (obligations : List Obligation) :
    r.firstFailure? r.start [] obligations =
      obligations.findSome? fun obligation =>
        (r.obligationProblem? obligation).map fun problem =>
          ⟨obligation, obligation.inContext problem.reason⟩ := by
  simp only [firstFailure?, obligationFault?_start, Option.map_map]
  rfl

theorem evaluate_eq_nil_iff (obligations : List Obligation) :
    r.evaluate obligations = [] ↔
      ∀ obligation ∈ obligations, r.obligationProblem? obligation = none := by
  simp only [evaluate, List.filterMap_eq_nil_iff, Option.map_eq_none_iff]

theorem evaluate_singleton {obligation : Obligation} {problem : Problem}
    (h : r.obligationProblem? obligation = some problem) :
    r.evaluate [obligation] = [⟨problem, obligation.node⟩] := by
  simp [evaluate, h]

theorem firstFailure?_start_eq_none_iff (obligations : List Obligation) :
    r.firstFailure? r.start [] obligations = none ↔ r.evaluate obligations = [] := by
  rw [firstFailure?_start, evaluate_eq_nil_iff, List.findSome?_eq_none_iff]
  simp only [Option.map_eq_none_iff]

-- The check that stops early has found nothing wrong with what it has passed.
theorem firstFailure?_start_eq_some {obligations : List Obligation} {failure : ObligationFailure}
    (h : r.firstFailure? r.start [] obligations = some failure) :
    ∃ before after problem,
      obligations = before ++ failure.obligation :: after ∧
      (∀ earlier ∈ before, r.evaluate [earlier] = []) ∧
      r.evaluate [failure.obligation] = [⟨problem, failure.obligation.node⟩] ∧
      failure.detail = failure.obligation.inContext problem.reason := by
  rw [firstFailure?_start] at h
  obtain ⟨before, obligation, after, rfl, hfound, hbefore⟩ := List.findSome?_eq_some_iff.mp h
  obtain ⟨problem, hproblem, rfl⟩ := Option.map_eq_some_iff.mp hfound
  refine ⟨before, after, problem, rfl, ?_, evaluate_singleton hproblem, rfl⟩
  intro earlier hearlier
  rw [evaluate_eq_nil_iff]
  intro checked hchecked
  obtain rfl := List.mem_singleton.mp hchecked
  exact Option.map_eq_none_iff.mp (hbefore checked hearlier)

end Resolver

-- The check that stops at the first failure passes one stack of goals from obligation to
-- obligation, and the one that reports every failure starts each with no goals. The first
-- passes if there is nothing to report. Otherwise it ends at the first obligation for which
-- a report is made, with the reason that the report gives.
theorem obligation_checks_agree (r : Resolver) (obligations : List Obligation)
    (s : Substitution) :
    Completes r.options.maxDepth []
        (fun fuel => r.firstFailureRun fuel (obligations.map (Obligation.substitute · s)))
        (r.failure? obligations s) ∧
      (r.failure? obligations s = none ↔
        r.evaluate (obligations.map (Obligation.substitute · s)) = []) ∧
      ∀ failure, r.failure? obligations s = some failure →
        ∃ before after problem,
          obligations.map (Obligation.substitute · s) = before ++ failure.obligation :: after ∧
          (∀ earlier ∈ before, r.evaluate [earlier] = []) ∧
          r.evaluate [failure.obligation] = [⟨problem, failure.obligation.node⟩] ∧
          failure.detail = failure.obligation.inContext problem.reason :=
  ⟨r.answers_start.obligations _, Resolver.firstFailure?_start_eq_none_iff _,
    fun _ hfailure => Resolver.firstFailure?_start_eq_some hfailure⟩

namespace Tower

def demand (subject : Ty) (interface : String) : Obligation where
  owner := "fn show"
  param := "T"
  constraint := .declared .interface interface []
  subject := subject

-- The first two use up the room there is, and the third would need more.
def demands : List Obligation := [
  demand (.unary .array (.unary .array (.param "T"))) "Print",
  demand (.unary .array (.unary .array (.param "T"))) "Print",
  demand (.unary .array (.unary .array (.unary .array (.param "T")))) "Print",
  demand (.param "T") "Hidden"]

def bindings : Substitution := Bindings.empty.insert "T" .bool

def failure : ObligationFailure where
  obligation := demand (.unary .array subject) "Print"
  detail := "Array Array Array bool does not implement Print"

end Tower

theorem demands_fail_at_third :
    Tower.resolver.failure? Tower.demands Tower.bindings = some Tower.failure ∧
      (Tower.resolver.evaluate (Tower.demands.map
        (Obligation.substitute · Tower.bindings))).length = 2 ∧
      ∃ before after problem,
        Tower.demands.map (Obligation.substitute · Tower.bindings) =
          before ++ Tower.failure.obligation :: after ∧
        (∀ earlier ∈ before, Tower.resolver.evaluate [earlier] = []) ∧
        Tower.resolver.evaluate [Tower.failure.obligation] =
          [⟨problem, Tower.failure.obligation.node⟩] ∧
        Tower.failure.detail = Tower.failure.obligation.inContext problem.reason := by
  have hfailure : Tower.resolver.failure? Tower.demands Tower.bindings = some Tower.failure := by
    decide +kernel
  refine ⟨hfailure, by decide +kernel, ?_⟩
  exact (obligation_checks_agree Tower.resolver Tower.demands Tower.bindings).2.2
    Tower.failure hfailure

end Conformance
