import Conformance.Proofs.GoalStack

namespace Conformance

-- A lookup that was never refused a goal for want of room is answered in the same way with
-- more room. Its session is retraced, moment by moment, under the greater limit.

def Resolver.withLimit (r : Resolver) (limit : Nat) : Resolver :=
  { r with options := { r.options with maxDepth := limit } }

-- Whether a goal is refused at this moment because too many are open.
def Moment.isTooDeep (moment : Moment) : Bool :=
  match moment.event with
  | .refused (.tooDeep _ _) => true
  | _ => false

namespace Session

variable {α β : Type}

-- Where the first session ends, having met only moments of some kind, the second one ends in
-- the same way and has met the same moments.
def Retraced (P : Moment → Prop) (session other : Session α) : Prop :=
  ∀ journal result after, session journal = some (result, after) →
    journal.moments ⊆ after.moments ∧
      ((∀ moment ∈ after.moments, P moment) → other journal = some (result, after))

namespace Retraced

variable {P : Moment → Prop}

theorem pure (result : α) :
    Retraced P (Pure.pure result : Session α) (Pure.pure result) := by
  intro journal result after hrun
  cases hrun
  exact ⟨List.Subset.refl _, fun _ => rfl⟩

theorem outOfFuel (other : Session α) : Retraced P Session.outOfFuel other := by
  intro journal result after hrun
  cases hrun

-- The moments of the first part are among those of the whole.
theorem bind {session other : Session α} {next next' : α → Session β}
    (h : Retraced P session other) (hnext : ∀ a, Retraced P (next a) (next' a)) :
    Retraced P (session >>= next) (other >>= next') := by
  intro journal result after hrun
  obtain ⟨⟨first, between⟩, hfirst, hrest⟩ := Option.bind_eq_some_iff.mp hrun
  obtain ⟨hbefore, hother⟩ := h journal first between hfirst
  obtain ⟨hafter, hothers⟩ := hnext first between result after hrest
  refine ⟨List.Subset.trans hbefore hafter, fun hmoments => ?_⟩
  have hsame := hother fun moment hmem => hmoments moment (hafter hmem)
  show (other journal).bind _ = _
  rw [hsame]
  exact hothers hmoments

theorem mapM {run run' : α → Session β} (h : ∀ a, Retraced P (run a) (run' a)) (xs : List α) :
    Retraced P (xs.mapM run) (xs.mapM run') := by
  induction xs with
  | nil => exact pure []
  | cons x xs ih =>
      rw [List.mapM_cons, List.mapM_cons]
      exact (h x).bind fun y => ih.bind fun ys => pure (y :: ys)

theorem findSomeM? {run run' : α → Session (Option β)} (h : ∀ a, Retraced P (run a) (run' a))
    (xs : List α) : Retraced P (xs.findSomeM? run) (xs.findSomeM? run') := by
  induction xs with
  | nil => exact pure none
  | cons x xs ih =>
      rw [List.findSomeM?, List.findSomeM?]
      refine (h x).bind fun found => ?_
      cases found with
      | none => exact ih
      | some y => exact pure (some y)

theorem leave : Retraced P Session.leave Session.leave := by
  intro journal result after hrun
  cases hrun
  exact ⟨List.subset_append_left _ _, fun _ => rfl⟩

-- A goal that is opened, or refused as cyclic, finds the same under a greater limit.
theorem enter {limit limit' : Nat} (hlimit : limit ≤ limit')
    (hdeep : limit = limit' ∨ ∀ moment, P moment → moment.isTooDeep = false) (goal : Goal) :
    Retraced P (Session.enter limit goal) (Session.enter limit' goal) := by
  intro journal result after hrun
  unfold Session.enter at hrun ⊢
  split at hrun
  · rename_i hcyclic
    cases hrun
    exact ⟨List.subset_append_left _ _, fun _ => by rw [if_pos hcyclic]⟩
  · rename_i hnew
    split at hrun
    · rename_i hfull
      cases hrun
      refine ⟨List.subset_append_left _ _, fun hmoments => ?_⟩
      rcases hdeep with rfl | hdeep
      · rw [if_neg hnew, if_pos hfull]
      · have hrefused := hdeep _ (hmoments _ (List.mem_append_right _ (List.mem_singleton_self _)))
        cases hrefused
    · rename_i hroom
      cases hrun
      refine ⟨List.subset_append_left _ _, fun _ => ?_⟩
      rw [if_neg hnew, if_neg (by omega)]

end Retraced

end Session

namespace Resolver

-- All sessions with some fuel are retraced under another limit with other fuel.
structure Retraces (r : Resolver) (limit : Nat) (P : Moment → Prop) (fuel fuel' : Nat) :
    Prop where
  explore : ∀ goal, Session.Retraced P (r.exploreRun fuel goal)
    ((r.withLimit limit).exploreRun fuel' goal)
  resolve : ∀ subject interface args, Session.Retraced P
    (r.resolveRun fuel subject interface args)
    ((r.withLimit limit).resolveRun fuel' subject interface args)
  implements : ∀ subject interface args, Session.Retraced P
    (r.implementsRun fuel subject interface args)
    ((r.withLimit limit).implementsRun fuel' subject interface args)
  firstFailing : ∀ ts interface args, Session.Retraced P
    (r.firstFailingRun fuel ts interface args)
    ((r.withLimit limit).firstFailingRun fuel' ts interface args)
  obligationFault : ∀ obligation, Session.Retraced P (r.obligationFaultRun fuel obligation)
    ((r.withLimit limit).obligationFaultRun fuel' obligation)
  firstFailure : ∀ obligations, Session.Retraced P (r.firstFailureRun fuel obligations)
    ((r.withLimit limit).firstFailureRun fuel' obligations)
  matchInterface : ∀ subject interface targetArgs generics, Session.Retraced P
    (r.matchInterfaceRun fuel subject interface targetArgs generics)
    ((r.withLimit limit).matchInterfaceRun fuel' subject interface targetArgs generics)
  matchTarget : ∀ subject target generics, Session.Retraced P
    (r.matchTargetRun fuel subject target generics)
    ((r.withLimit limit).matchTargetRun fuel' subject target generics)
  assess : ∀ goal impl, Session.Retraced P (r.assessRun fuel goal impl)
    ((r.withLimit limit).assessRun fuel' goal impl)

theorem retraces_zero (r : Resolver) (limit : Nat) (P : Moment → Prop) (fuel' : Nat) :
    r.Retraces limit P 0 fuel' := by
  constructor
  all_goals
    intros
    exact .outOfFuel _

section Step

variable {r : Resolver} {limit fuel fuel' : Nat} {P : Moment → Prop}
  (h : r.Retraces limit P fuel fuel')

include h

theorem Retraces.explore_succ {goal : Goal} (henter : Session.Retraced P
      (Session.enter r.options.maxDepth goal) (Session.enter limit goal)) :
    Session.Retraced P (r.exploreRun (fuel + 1) goal)
      ((r.withLimit limit).exploreRun (fuel' + 1) goal) := by
  rw [exploreRun, exploreRun]
  refine henter.bind fun entered => ?_
  cases entered with
  | error fault => exact .pure _
  | ok _ =>
      refine (Session.Retraced.mapM (h.assess goal) _).bind fun assessments => ?_
      exact Session.Retraced.leave.bind fun _ => .pure _

theorem Retraces.resolve_succ (subject : Ty) (interface : String) (args : List Ty) :
    Session.Retraced P (r.resolveRun (fuel + 1) subject interface args)
      ((r.withLimit limit).resolveRun (fuel' + 1) subject interface args) := by
  rw [resolveRun, resolveRun]
  refine (h.explore _).bind fun explored => ?_
  cases explored with
  | ok assessments => exact .pure (r.conclude _ assessments)
  | error fault => exact .pure _

theorem Retraces.implements_succ (subject : Ty) (interface : String) (args : List Ty) :
    Session.Retraced P (r.implementsRun (fuel + 1) subject interface args)
      ((r.withLimit limit).implementsRun (fuel' + 1) subject interface args) := by
  have hdirect := h.resolve subject interface args
  cases hplain : subject.isPlain with
  | true =>
      rw [implementsRun_of_isPlain hplain, implementsRun_of_isPlain hplain]
      split
      · split
        · exact .pure _
        · exact hdirect
      · exact hdirect
  | false =>
      cases subject with
      | unknown | param _ =>
          rw [implementsRun, implementsRun]
          exact .pure _
      | nullable inner =>
          rw [implementsRun, implementsRun]
          refine hdirect.bind fun direct => ?_
          split
          · exact .pure _
          · exact (h.implements inner interface args).bind fun _ => .pure _
      | anyOf members =>
          rw [implementsRun, implementsRun]
          refine hdirect.bind fun direct => ?_
          split
          · exact .pure _
          · refine (h.firstFailing members interface args).bind fun failing => ?_
            cases failing with
            | some outcome => exact .pure _
            | none => exact .pure _
      | _ => cases hplain

theorem Retraces.firstFailing_succ (ts : List Ty) (interface : String) (args : List Ty) :
    Session.Retraced P (r.firstFailingRun (fuel + 1) ts interface args)
      ((r.withLimit limit).firstFailingRun (fuel' + 1) ts interface args) := by
  cases ts with
  | nil =>
      rw [firstFailingRun, firstFailingRun]
      exact .pure _
  | cons t ts =>
      rw [firstFailingRun, firstFailingRun]
      refine (h.implements t interface args).bind fun outcome => ?_
      split
      · exact h.firstFailing ts interface args
      · exact .pure _

theorem Retraces.obligationFault_succ (obligation : Obligation) :
    Session.Retraced P (r.obligationFaultRun (fuel + 1) obligation)
      ((r.withLimit limit).obligationFaultRun (fuel' + 1) obligation) := by
  rw [obligationFaultRun, obligationFaultRun, show (r.withLimit limit).env = r.env from rfl]
  cases r.env.checkedInterface obligation.constraint with
  | error fault => exact .pure _
  | ok interface =>
      dsimp only
      split
      · exact .pure _
      · exact (h.implements _ _ _).bind fun _ => .pure _

theorem Retraces.firstFailure_succ (obligations : List Obligation) :
    Session.Retraced P (r.firstFailureRun (fuel + 1) obligations)
      ((r.withLimit limit).firstFailureRun (fuel' + 1) obligations) := by
  rw [firstFailureRun, firstFailureRun]
  refine .findSomeM? (fun obligation => ?_) obligations
  exact (h.obligationFault obligation).bind fun _ => .pure _

theorem Retraces.matchInterface_succ (subject : Ty) (interface : String) (targetArgs : List Ty)
    (generics : List (TypeParam Ty)) :
    Session.Retraced P (r.matchInterfaceRun (fuel + 1) subject interface targetArgs generics)
      ((r.withLimit limit).matchInterfaceRun (fuel' + 1) subject interface targetArgs
        generics) := by
  rw [matchInterfaceRun, matchInterfaceRun]
  refine (h.explore _).bind fun explored => ?_
  cases explored with
  | error fault => exact .pure _
  | ok assessments => exact .pure (r.bestFit targetArgs generics assessments)

theorem Retraces.matchTarget_succ (subject target : Ty) (generics : List (TypeParam Ty)) :
    Session.Retraced P (r.matchTargetRun (fuel + 1) subject target generics)
      ((r.withLimit limit).matchTargetRun (fuel' + 1) subject target generics) := by
  rw [matchTargetRun, matchTargetRun]
  split
  · exact .pure _
  · rename_i interface targetArgs _
    have hinterface := h.matchInterface subject interface targetArgs generics
    split
    · exact .pure _
    · split
      · split
        · exact .pure _
        · exact hinterface
      · exact hinterface

theorem Retraces.assess_succ (goal : Goal) (impl : Implementation) :
    Session.Retraced P (r.assessRun (fuel + 1) goal impl)
      ((r.withLimit limit).assessRun (fuel' + 1) goal impl) := by
  rw [assessRun, assessRun, show (r.withLimit limit).env = r.env from rfl]
  refine (h.matchTarget _ _ _).bind fun matched => ?_
  cases matched with
  | none => exact .pure _
  | some found =>
      dsimp only
      split
      · exact .pure _
      · refine (h.firstFailure _).bind fun failure => ?_
        cases failure with
        | some failure => exact .pure _
        | none => exact .pure _

end Step

-- A call has one less to spend on the calls it makes, and so the induction on the fuel covers
-- all of them.
theorem retraces {r : Resolver} {limit : Nat} {P : Moment → Prop}
    (hlimit : r.options.maxDepth ≤ limit)
    (hdeep : r.options.maxDepth = limit ∨ ∀ moment, P moment → moment.isTooDeep = false)
    {fuel fuel' : Nat} (hfuel : fuel ≤ fuel') : r.Retraces limit P fuel fuel' := by
  induction fuel generalizing fuel' with
  | zero => exact r.retraces_zero limit P fuel'
  | succ fuel ih =>
      obtain ⟨fuel', rfl⟩ : ∃ less, fuel' = less + 1 := ⟨fuel' - 1, by omega⟩
      have hless := ih (Nat.le_of_succ_le_succ hfuel)
      exact {
        explore := fun goal => hless.explore_succ (.enter hlimit hdeep goal)
        resolve := hless.resolve_succ
        implements := hless.implements_succ
        firstFailing := hless.firstFailing_succ
        obligationFault := hless.obligationFault_succ
        firstFailure := hless.firstFailure_succ
        matchInterface := hless.matchInterface_succ
        matchTarget := hless.matchTarget_succ
        assess := hless.assess_succ }

-- No goal of a lookup is refused because too many are open.
def StaysWithin (r : Resolver) (subject : Ty) (interface : String) (args : List Ty) : Prop :=
  ∀ fuel outcome journal, r.resolveRun fuel subject interface args ⟨[], []⟩ =
      some (outcome, journal) →
    ∀ moment ∈ journal.moments, moment.isTooDeep = false

section Lookups

variable {r : Resolver} {subject : Ty} {interface : String} {args : List Ty}

-- Every lookup comes to an end, with the outcome that the resolver gives.
theorem resolveRun_ends (r : Resolver) (subject : Ty) (interface : String) (args : List Ty) :
    ∃ calls journal, ∀ fuel ≥ calls, r.resolveRun fuel subject interface args ⟨[], []⟩ =
      some (r.resolve subject interface args, journal) := by
  obtain ⟨calls, passed, hrun, -⟩ := r.answers_start.resolve subject interface args
  exact ⟨calls, ⟨[], [] ++ passed⟩, fun fuel hfuel => hrun fuel hfuel []⟩

-- With more fuel a lookup that ends passes the same moments.
theorem resolveRun_mono {fuel fuel' : Nat} (hfuel : fuel ≤ fuel') {journal after : Journal}
    {outcome : Outcome}
    (hrun : r.resolveRun fuel subject interface args journal = some (outcome, after)) :
    r.resolveRun fuel' subject interface args journal = some (outcome, after) := by
  have hretraces := retraces (r := r) (P := fun _ => True) (Nat.le_refl _) (.inl rfl) hfuel
  exact ((hretraces.resolve subject interface args) journal outcome after hrun).2
    fun _ _ => trivial

-- One run that ends, with no goal refused for its depth, settles it for all.
theorem staysWithin_of_run (fuel : Nat)
    (hrun : (r.resolveRun fuel subject interface args ⟨[], []⟩).any (fun ended =>
      ended.2.moments.all fun moment => !moment.isTooDeep) = true) :
    r.StaysWithin subject interface args := by
  obtain ⟨⟨outcome, journal⟩, hends, hmoments⟩ := (Option.any_eq_true _ _).mp hrun
  intro fuel' outcome' journal' hends'
  have hleft := resolveRun_mono (Nat.le_max_left fuel fuel') hends
  have hright := resolveRun_mono (Nat.le_max_right fuel fuel') hends'
  obtain ⟨-, rfl⟩ : outcome = outcome' ∧ journal = journal' := by
    simpa using hleft.symm.trans hright
  simpa using hmoments

end Lookups

end Resolver

-- The limit on open goals only affects what exceeds it: a lookup in which no goal was refused
-- for it has the same outcome, words and all, under every greater limit.
theorem resolve_eq_of_staysWithin (r : Resolver) (limit : Nat)
    (hlimit : r.options.maxDepth ≤ limit) (subject : Ty) (interface : String) (args : List Ty)
    (hwithin : r.StaysWithin subject interface args) :
    (r.withLimit limit).resolve subject interface args = r.resolve subject interface args := by
  obtain ⟨calls, journal, hends⟩ := r.resolveRun_ends subject interface args
  obtain ⟨calls', journal', hends'⟩ :=
    (r.withLimit limit).resolveRun_ends subject interface args
  have hrun := hends calls (Nat.le_refl _)
  have hretraces := Resolver.retraces (P := fun moment => moment.isTooDeep = false) hlimit
    (.inr fun _ hmoment => hmoment) (Nat.le_max_left calls calls')
  have hsame := (hretraces.resolve subject interface args _ _ _ hrun).2
    (hwithin calls _ journal hrun)
  have houtcomes := hsame.symm.trans (hends' _ (Nat.le_max_right calls calls'))
  simpa using (congrArg (Option.map Prod.fst) houtcomes).symm

namespace Tower

-- Arrays of what can be shown can be shown, and what can be shown can be printed.

def subject : Ty := .unary .array (.unary .array .bool)

def resolver : Resolver where
  env := ["Show", "Print"].foldl
    (fun env name => env.define name (.interface { name := name })) ∅
  registry := ⟨[
    { interface := { name := "Show" }, target := .bool },
    Circle.bounded "T" ["Show"] (.unary .array (.param "T")),
    { interface := { name := "Print" }, target := .declared .interface "Show" [] }]⟩
  options := { maxDepth := 4 }

end Tower

-- Four goals are open when the innermost type is reached. A limit of four is enough, so that
-- more makes no difference, and with three the tower cannot be printed.
theorem tower_stays_within_four :
    Tower.resolver.StaysWithin Tower.subject "Print" [] ∧
      (Tower.resolver.withLimit 64).resolve Tower.subject "Print" [] =
        Tower.resolver.resolve Tower.subject "Print" [] ∧
      (Tower.resolver.resolve Tower.subject "Print" []).isResolved = true ∧
      ((Tower.resolver.withLimit 3).resolve Tower.subject "Print" []).isResolved = false := by
  have hwithin : Tower.resolver.StaysWithin Tower.subject "Print" [] :=
    Resolver.staysWithin_of_run 40 (by decide +kernel)
  refine ⟨hwithin, ?_, by decide +kernel, by decide +kernel⟩
  exact resolve_eq_of_staysWithin Tower.resolver 64 (by decide) Tower.subject "Print" [] hwithin

end Conformance
