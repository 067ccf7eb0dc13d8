import Conformance.Proofs.Session

namespace Conformance

-- No goal is open twice, and there are not more of them than allowed.
structure Stacked (limit : Nat) (goals : List Goal) : Prop where
  nodup : (goals.map Goal.key).Nodup
  length_le : goals.length ≤ limit

theorem Stacked.cons {limit : Nat} {goals : List Goal} {goal : Goal} (h : Stacked limit goals)
    (hnew : (goals.any fun opened => opened.key = goal.key) = false)
    (hroom : goals.length < limit) : Stacked limit (goal :: goals) := by
  refine ⟨List.nodup_cons.mpr ⟨?_, h.nodup⟩, hroom⟩
  intro hmem
  obtain ⟨opened, hopened, hkey⟩ := List.mem_map.mp hmem
  have hne := List.any_eq_false.mp hnew opened hopened
  simp [hkey] at hne

-- A session that ends, given fuel enough, with a result and with the open goals as they were.
-- All along the goals keep to the limit.
def Completes {α : Type} (limit : Nat) (goals : List Goal) (run : Nat → Session α) (result : α) :
    Prop :=
  ∃ calls passed,
    (∀ fuel ≥ calls, ∀ moments,
      run fuel ⟨goals, moments⟩ = some (result, ⟨goals, moments ++ passed⟩)) ∧
    ∀ moment ∈ passed, Stacked limit moment.goals

namespace Completes

variable {α β : Type} {limit : Nat} {goals : List Goal}

theorem pure (result : α) : Completes limit goals (fun _ => Pure.pure result) result := by
  refine ⟨0, [], fun fuel _ moments => ?_, by simp⟩
  rw [List.append_nil]
  rfl

-- A call needs one more than the calls in its body.
theorem call {run body : Nat → Session α} {result : α} (hrun : ∀ fuel, run (fuel + 1) = body fuel)
    (h : Completes limit goals body result) : Completes limit goals run result := by
  obtain ⟨calls, passed, hbody, hstacked⟩ := h
  refine ⟨calls + 1, passed, fun fuel hfuel moments => ?_, hstacked⟩
  obtain ⟨fuel, rfl⟩ : ∃ less, fuel = less + 1 := ⟨fuel - 1, by omega⟩
  rw [hrun]
  exact hbody fuel (by omega) moments

-- What is done after a session starts from the same goals as the session.
theorem bind {run : Nat → Session α} {next : Nat → α → Session β} {a : α} {b : β}
    (h : Completes limit goals run a) (hnext : Completes limit goals (fun fuel => next fuel a) b) :
    Completes limit goals (fun fuel => run fuel >>= next fuel) b := by
  obtain ⟨calls, before, hbefore, hstacked⟩ := h
  obtain ⟨calls', after, hafter, hstacked'⟩ := hnext
  refine ⟨max calls calls', before ++ after, fun fuel hfuel moments => ?_, ?_⟩
  · show (run fuel ⟨goals, moments⟩).bind (fun pair => next fuel pair.1 pair.2) = _
    rw [hbefore fuel (by omega), Option.bind_some, ← List.append_assoc]
    exact hafter fuel (by omega) (moments ++ before)
  · intro moment hmoment
    rcases List.mem_append.mp hmoment with hmoment | hmoment
    · exact hstacked moment hmoment
    · exact hstacked' moment hmoment

theorem mapM {run : Nat → α → Session β} {result : α → β} (xs : List α)
    (h : ∀ x ∈ xs, Completes limit goals (fun fuel => run fuel x) (result x)) :
    Completes limit goals (fun fuel => xs.mapM (run fuel)) (xs.map result) := by
  induction xs with
  | nil => exact pure []
  | cons x xs ih =>
      have hfirst := h x List.mem_cons_self
      have hrest := ih fun y hy => h y (List.mem_cons_of_mem _ hy)
      simp only [List.mapM_cons, List.map_cons]
      exact hfirst.bind (hrest.bind (pure _))

theorem findSomeM? {run : Nat → α → Session (Option β)} {result : α → Option β} (xs : List α)
    (h : ∀ x ∈ xs, Completes limit goals (fun fuel => run fuel x) (result x)) :
    Completes limit goals (fun fuel => xs.findSomeM? (run fuel)) (xs.findSome? result) := by
  induction xs with
  | nil => exact pure none
  | cons x xs ih =>
      simp only [List.findSomeM?, List.findSome?]
      apply (h x List.mem_cons_self).bind
      cases result x with
      | none => exact ih fun y hy => h y (List.mem_cons_of_mem _ hy)
      | some y => exact pure (some y)

end Completes

namespace Resolver

variable {r : Resolver} {goals : List Goal}

-- A goal that is refused is not put on the stack.
theorem exploreRun_refused {goal : Goal} {fault : GoalFault}
    (hstacked : Stacked r.options.maxDepth goals)
    (hfault : ∀ moments, Session.enter r.options.maxDepth goal ⟨goals, moments⟩ =
      some (.error fault, ⟨goals, moments ++ [⟨.refused fault, goals⟩]⟩)) :
    Completes r.options.maxDepth goals (fun fuel => r.exploreRun fuel goal) (.error fault) := by
  apply Completes.call fun fuel => by rw [exploreRun]
  refine ⟨0, [⟨.refused fault, goals⟩], fun fuel _ moments => ?_, by simpa using hstacked⟩
  show (Session.enter r.options.maxDepth goal ⟨goals, moments⟩).bind _ = _
  rw [hfault]
  rfl

theorem exploreRun_cyclic {below : Option Explorer} {goal : Goal}
    (hstacked : Stacked r.options.maxDepth goals)
    (hcyclic : (goals.any fun opened => opened.key = goal.key) = true) :
    Completes r.options.maxDepth goals (fun fuel => r.exploreRun fuel goal)
      (r.explore below goals goal) := by
  have hexplore : r.explore below goals goal = .error (.cyclic goal) := by
    simp [explore, hcyclic]
  rw [hexplore]
  apply exploreRun_refused hstacked
  intro moments
  simp [Session.enter, hcyclic, Journal.note]

-- A goal that is opened is closed again once its candidates are assessed.
theorem exploreRun_opened {goal : Goal} {assessments : List Assessment}
    (hstacked : Stacked r.options.maxDepth goals)
    (hnew : (goals.any fun opened => opened.key = goal.key) = false)
    (hroom : goals.length < r.options.maxDepth)
    (h : Completes r.options.maxDepth (goal :: goals)
      (fun fuel => (r.registry.candidates (servingInterfaces goal.interface)).mapM
        (r.assessRun fuel goal)) assessments) :
    Completes r.options.maxDepth goals (fun fuel => r.exploreRun fuel goal) (.ok assessments) := by
  apply Completes.call fun fuel => by rw [exploreRun]
  have hpushed := hstacked.cons hnew hroom
  obtain ⟨calls, passed, hrun, hpassed⟩ := h
  refine ⟨calls, ⟨.opened goal, goal :: goals⟩ :: passed ++ [⟨.closed, goals⟩],
    fun fuel hfuel moments => ?_, ?_⟩
  · have henter : Session.enter r.options.maxDepth goal ⟨goals, moments⟩ =
        some (.ok (), ⟨goal :: goals, moments ++ [⟨.opened goal, goal :: goals⟩]⟩) := by
      simp [Session.enter, hnew, hroom, Journal.note]
    have hinner := hrun fuel hfuel (moments ++ [⟨.opened goal, goal :: goals⟩])
    dsimp only at hinner
    show (Session.enter r.options.maxDepth goal ⟨goals, moments⟩).bind _ = _
    rw [henter]
    show (((r.registry.candidates (servingInterfaces goal.interface)).mapM (r.assessRun fuel goal))
      ⟨goal :: goals, moments ++ [⟨.opened goal, goal :: goals⟩]⟩).bind _ = _
    rw [hinner]
    show some (_, Journal.note _ _ _) = _
    simp [Journal.note]
  · intro moment hmoment
    simp only [List.cons_append, List.mem_cons, List.mem_append, List.not_mem_nil,
      or_false] at hmoment
    rcases hmoment with rfl | hmoment | rfl
    · exact hpushed
    · exact hpassed moment hmoment
    · exact hstacked

theorem resolveRun_completes {below : Option Explorer} {subject : Ty} {interface : String}
    {args : List Ty}
    (h : Completes r.options.maxDepth goals
      (fun fuel => r.exploreRun fuel (Goal.lookup subject interface args))
      (r.explore below goals (Goal.lookup subject interface args))) :
    Completes r.options.maxDepth goals (fun fuel => r.resolveRun fuel subject interface args)
      (r.resolveIn below goals subject interface args) := by
  apply Completes.call fun fuel => by rw [resolveRun]
  rw [resolveIn]
  apply h.bind
  cases r.explore below goals (Goal.lookup subject interface args) with
  | ok assessments => exact .pure _
  | error fault => exact .pure _

section Subjects

variable {resolve : Ty → Outcome} {interface : String} {args : List Ty}

theorem implementsRun_of_isPlain {t : Ty} (h : t.isPlain = true) (fuel : Nat) :
    r.implementsRun (fuel + 1) t interface args =
      match t.asInterface? with
      | some (name, ownArgs) =>
          if name = interface ∧ argsCompatible ownArgs args then
            pure (.resolved (.trivial t interface))
          else r.resolveRun fuel t interface args
      | none => r.resolveRun fuel t interface args := by
  cases t with
  | unknown | param _ | nullable _ | anyOf _ => simp [Ty.isPlain] at h
  | _ => rfl

theorem implementsRun_plain {t : Ty} (hplain : t.isPlain = true)
    (h : Completes r.options.maxDepth goals (fun fuel => r.resolveRun fuel t interface args)
      (resolve t)) :
    Completes r.options.maxDepth goals (fun fuel => r.implementsRun fuel t interface args)
      (implementsBy resolve interface args t) := by
  apply Completes.call (implementsRun_of_isPlain hplain)
  rw [implementsBy_of_isPlain _ _ _ hplain]
  cases t.asInterface? with
  | none => exact h
  | some pair =>
      by_cases hsame : pair.1 = interface ∧ argsCompatible pair.2 args = true
      · simp only [hsame, and_self, if_true]
        exact .pure _
      · simp only [hsame, if_false]
        exact h

mutual
-- A type that implements an interface through its parts has one part asked after the other,
-- each from the same goals. The parts are smaller than the type.
theorem implementsRun_completes
    (h : ∀ t, Completes r.options.maxDepth goals (fun fuel => r.resolveRun fuel t interface args)
      (resolve t)) :
    (t : Ty) → Completes r.options.maxDepth goals
      (fun fuel => r.implementsRun fuel t interface args) (implementsBy resolve interface args t)
  | .unknown => by
      apply Completes.call fun fuel => by rw [implementsRun]
      exact .pure _
  | .param _ => by
      apply Completes.call fun fuel => by rw [implementsRun]
      exact .pure _
  | .nullable inner => by
      have hthrough := implementsRun_completes h inner
      apply Completes.call fun fuel => by rw [implementsRun]
      rw [implementsBy]
      apply (h (.nullable inner)).bind
      cases (resolve (.nullable inner)).isResolved with
      | true => exact .pure _
      | false => exact hthrough.bind (.pure _)
  | .anyOf members => by
      have hmembers := firstFailingRun_completes h members
      apply Completes.call fun fuel => by rw [implementsRun]
      rw [implementsBy]
      apply (h (.anyOf members)).bind
      cases (resolve (.anyOf members)).isResolved with
      | true => exact .pure _
      | false =>
          apply hmembers.bind
          cases firstFailing resolve interface args members with
          | some outcome => exact .pure _
          | none => exact .pure _
  | .scalar _ => implementsRun_plain rfl (h _)
  | .declared _ _ _ => implementsRun_plain rfl (h _)
  | .inst _ _ => implementsRun_plain rfl (h _)
  | .alias _ _ => implementsRun_plain rfl (h _)
  | .applied _ _ => implementsRun_plain rfl (h _)
  | .function _ => implementsRun_plain rfl (h _)
  | .overload _ => implementsRun_plain rfl (h _)
  | .unary _ _ => implementsRun_plain rfl (h _)
  | .map _ _ => implementsRun_plain rfl (h _)
theorem firstFailingRun_completes
    (h : ∀ t, Completes r.options.maxDepth goals (fun fuel => r.resolveRun fuel t interface args)
      (resolve t)) :
    (ts : List Ty) → Completes r.options.maxDepth goals
      (fun fuel => r.firstFailingRun fuel ts interface args)
      (firstFailing resolve interface args ts)
  | [] => by
      apply Completes.call fun fuel => by rw [firstFailingRun]
      exact .pure _
  | t :: ts => by
      have hfirst := implementsRun_completes h t
      have hrest := firstFailingRun_completes h ts
      apply Completes.call fun fuel => by rw [firstFailingRun]
      rw [firstFailing]
      apply hfirst.bind
      cases (implementsBy resolve interface args t).isResolved with
      | true => exact hrest
      | false => exact .pure _
end

end Subjects

section Candidates

variable {below : Option Explorer}

theorem firstFailureRun_completes
    (h : ∀ subject interface args, Completes r.options.maxDepth goals
      (fun fuel => r.implementsRun fuel subject interface args)
      (r.implementsIn below goals subject interface args))
    (obligations : List Obligation) :
    Completes r.options.maxDepth goals (fun fuel => r.firstFailureRun fuel obligations)
      (r.firstFailure? below goals obligations) := by
  have hfault (obligation : Obligation) : Completes r.options.maxDepth goals
      (fun fuel => r.obligationFaultRun fuel obligation)
      (r.obligationFault? below goals obligation) := by
    apply Completes.call fun fuel => by rw [obligationFaultRun]
    rw [obligationFault?]
    cases r.env.checkedInterface obligation.constraint with
    | error fault => exact .pure _
    | ok interface =>
        cases obligation.subject.isUnknown || obligation.subject.isParam with
        | true => exact .pure _
        | false => exact (h _ _ _).bind (.pure _)
  apply Completes.call fun fuel => by rw [firstFailureRun]
  rw [firstFailure?]
  exact .findSomeM? obligations fun obligation _ => (hfault obligation).bind (.pure _)

theorem matchTargetRun_completes
    (h : ∀ goal, Completes r.options.maxDepth goals (fun fuel => r.exploreRun fuel goal)
      (r.explore below goals goal))
    (subject target : Ty) (generics : List (TypeParam Ty)) :
    Completes r.options.maxDepth goals (fun fuel => r.matchTargetRun fuel subject target generics)
      (r.matchTargetIn below goals subject target generics) := by
  have hinterface (interface : String) (targetArgs : List Ty) :
      Completes r.options.maxDepth goals
        (fun fuel => r.matchInterfaceRun fuel subject interface targetArgs generics)
        (r.matchInterface below goals subject interface targetArgs generics) := by
    apply Completes.call fun fuel => by rw [matchInterfaceRun]
    rw [matchInterface_eq]
    apply (h (Goal.target subject interface)).bind
    cases r.explore below goals (Goal.target subject interface) with
    | error fault => exact .pure _
    | ok assessments => exact .pure _
  apply Completes.call fun fuel => by rw [matchTargetRun]
  rw [matchTargetIn]
  cases target.asInterface? with
  | none => exact .pure _
  | some pair =>
      cases subject.isUnknown with
      | true => exact .pure _
      | false =>
          cases subject.asInterface? with
          | none => exact hinterface pair.1 pair.2
          | some own =>
              by_cases hsame : own.1 = pair.1
              · simp only [hsame, if_true]
                exact .pure _
              · simp only [hsame, if_false]
                exact hinterface pair.1 pair.2

theorem assessRun_completes
    (hmatch : ∀ subject target generics, Completes r.options.maxDepth goals
      (fun fuel => r.matchTargetRun fuel subject target generics)
      (r.matchTargetIn below goals subject target generics))
    (hfailure : ∀ obligations, Completes r.options.maxDepth goals
      (fun fuel => r.firstFailureRun fuel obligations) (r.firstFailure? below goals obligations))
    (goal : Goal) (impl : Implementation) :
    Completes r.options.maxDepth goals (fun fuel => r.assessRun fuel goal impl)
      (r.assess below goals goal impl) := by
  apply Completes.call fun fuel => by rw [assessRun]
  rw [assess]
  apply (hmatch goal.subject impl.target impl.generics).bind
  cases r.matchTargetIn below goals goal.subject impl.target impl.generics with
  | none => exact .pure _
  | some found =>
      dsimp only
      generalize Substitution.complete found.substitution r.env impl goal.subject = s
      cases !argsCompatible (impl.args.map (Ty.substitute · s)) goal.args with
      | true => exact .pure _
      | false =>
          apply (hfailure (impl.obligations.map (Obligation.substitute · s))).bind
          cases r.firstFailure? below goals (impl.obligations.map (Obligation.substitute · s)) with
          | some failure => exact .pure _
          | none => exact .pure _

end Candidates

-- What is asked of the resolver inside some goals is answered as it says, with the goals
-- left as they were.
structure Answers (r : Resolver) (below : Option Explorer) (goals : List Goal) : Prop where
  resolve : ∀ subject interface args, Completes r.options.maxDepth goals
    (fun fuel => r.resolveRun fuel subject interface args)
    (r.resolveIn below goals subject interface args)
  implements : ∀ subject interface args, Completes r.options.maxDepth goals
    (fun fuel => r.implementsRun fuel subject interface args)
    (r.implementsIn below goals subject interface args)
  matchTarget : ∀ subject target generics, Completes r.options.maxDepth goals
    (fun fuel => r.matchTargetRun fuel subject target generics)
    (r.matchTargetIn below goals subject target generics)
  obligations : ∀ obligations, Completes r.options.maxDepth goals
    (fun fuel => r.firstFailureRun fuel obligations) (r.firstFailure? below goals obligations)

theorem answers_of_explore {below : Option Explorer}
    (h : ∀ goal, Completes r.options.maxDepth goals (fun fuel => r.exploreRun fuel goal)
      (r.explore below goals goal)) : r.Answers below goals := by
  have hresolve (subject : Ty) (interface : String) (args : List Ty) :=
    resolveRun_completes (h (Goal.lookup subject interface args))
  have himplements (subject : Ty) (interface : String) (args : List Ty) :
      Completes r.options.maxDepth goals (fun fuel => r.implementsRun fuel subject interface args)
        (r.implementsIn below goals subject interface args) :=
    implementsRun_completes (fun t => hresolve t interface args) subject
  exact ⟨hresolve, himplements, matchTargetRun_completes h, firstFailureRun_completes himplements⟩

-- Every goal inside a goal has one level less left, so that the induction on the levels
-- covers all that its candidates ask for. What they ask for may grow on the way.
theorem exploreRun_completes {room : Nat} (hstacked : Stacked r.options.maxDepth goals)
    (hroom : goals.length + room = r.options.maxDepth) (goal : Goal) :
    Completes r.options.maxDepth goals (fun fuel => r.exploreRun fuel goal)
      (r.explore (r.explorer room) goals goal) := by
  induction room generalizing goals goal with
  | zero =>
      cases hnew : goals.any fun opened => opened.key = goal.key with
      | true => exact exploreRun_cyclic hstacked hnew
      | false =>
          have hfull : r.options.maxDepth ≤ goals.length := by omega
          have hexplore : r.explore (r.explorer 0) goals goal =
              .error (.tooDeep r.options.maxDepth goal) := by
            simp [explore, hnew, explorer]
          rw [hexplore]
          apply exploreRun_refused hstacked
          intro moments
          simp [Session.enter, hnew, hfull, Journal.note]
  | succ room ih =>
      cases hnew : goals.any fun opened => opened.key = goal.key with
      | true => exact exploreRun_cyclic hstacked hnew
      | false =>
          have hspace : goals.length < r.options.maxDepth := by omega
          have hinner : (goal :: goals).length + room = r.options.maxDepth := by
            simp only [List.length_cons]
            omega
          have hexplore : r.explore (r.explorer (room + 1)) goals goal =
              .ok ((r.registry.candidates (servingInterfaces goal.interface)).map
                (r.assess (r.explorer room) (goal :: goals) goal)) := by
            simp [explore, hnew, explorer]
          have hnested := answers_of_explore (ih (hstacked.cons hnew hspace) hinner)
          rw [hexplore]
          apply exploreRun_opened hstacked hnew hspace
          exact .mapM _ fun impl _ =>
            assessRun_completes hnested.matchTarget hnested.obligations goal impl

theorem answers_start (r : Resolver) : r.Answers r.start [] := by
  have hempty : Stacked r.options.maxDepth [] := ⟨List.nodup_nil, Nat.zero_le _⟩
  exact answers_of_explore (exploreRun_completes hempty (Nat.zero_add _))

end Resolver

-- Entered with goals of which none is open twice and that are not too many, the resolver
-- comes to an end with the goals as they were, on every path and for every registry.
theorem resolver_keeps_goal_stack (r : Resolver) (goals : List Goal)
    (hstacked : Stacked r.options.maxDepth goals) :
    r.Answers (r.explorer (r.options.maxDepth - goals.length)) goals := by
  have hroom : goals.length + (r.options.maxDepth - goals.length) = r.options.maxDepth :=
    Nat.add_sub_of_le hstacked.length_le
  exact Resolver.answers_of_explore (Resolver.exploreRun_completes hstacked hroom)

namespace Growth

-- An array is shown if the array of such arrays is shown.

def interface : InterfaceDecl := { name := "Show" }

def arrayImpl : Implementation where
  interface := interface
  generics := [⟨"T", []⟩]
  target := .unary .array (.param "T")
  obligations := [{
    owner := "Show"
    param := "T"
    constraint := interface.toTy
    subject := .unary .array (.unary .array (.param "T")) }]

def resolver : Resolver where
  env := Environment.define ∅ "Show" (.interface interface)
  registry := ⟨[arrayImpl]⟩
  options := { maxDepth := 3 }

def outer : Goal := Goal.lookup .bool "Show" []

def outcome : Outcome := .unsatisfied {
  subject := "Array bool"
  interface := "Show"
  detail := "impl Show for Array bool: Array Array bool does not implement Show: " ++
    "impl Show for Array Array bool: Array Array Array bool does not implement Show: " ++
    "obligation depth limit of 3 exceeded while checking Array Array Array bool: Show" }

end Growth

-- The goals grow until the stack is full, and then are closed one after the other.
theorem growing_goals_keep_stack :
    Stacked 3 [Growth.outer] ∧
      Completes 3 [Growth.outer]
        (fun fuel => Growth.resolver.resolveRun fuel (.unary .array .bool) "Show" [])
        Growth.outcome ∧
      (Growth.resolver.resolveRun 14 (.unary .array .bool) "Show" []
          ⟨[Growth.outer], []⟩).map (fun (_, journal) =>
        journal.moments.map fun moment => moment.goals.length) = some [2, 3, 3, 2, 1] := by
  have hstacked : Stacked 3 [Growth.outer] := ⟨by simp, by simp⟩
  have hresult : Growth.resolver.resolveIn (Growth.resolver.explorer 2) [Growth.outer]
      (.unary .array .bool) "Show" [] = Growth.outcome := by
    decide +kernel
  refine ⟨hstacked, ?_, by decide +kernel⟩
  rw [← hresult]
  exact (resolver_keeps_goal_stack Growth.resolver [Growth.outer] hstacked).resolve _ _ _

end Conformance
