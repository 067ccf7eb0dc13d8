import Conformance.Proofs.GoalStack
import Conformance.Proofs.Legibility
import Conformance.Proofs.RegistryOrder

namespace Conformance

-- A goal that is refused as cyclic is open already. This needs a vocabulary in which all that
-- a session asks for can be read back from its text.

-- The goal that is refused at some moment for being open already.
def Moment.cyclic? (moment : Moment) : Option Goal :=
  match moment.event with
  | .refused (.cyclic goal) => some goal
  | _ => none

def Moment.Genuine (moment : Moment) : Prop := ∀ goal ∈ moment.cyclic?, goal ∈ moment.goals

-- The goals that were refused as cyclic, each with the goals that were open.
def Journal.cyclicRefusals (journal : Journal) : List (Goal × List Goal) :=
  journal.moments.filterMap fun moment => moment.cyclic?.map fun goal => (goal, moment.goals)

theorem Journal.mem_cyclicRefusals {journal : Journal} {goal : Goal} {goals : List Goal} :
    (goal, goals) ∈ journal.cyclicRefusals ↔
      ∃ moment ∈ journal.moments, moment.cyclic? = some goal ∧ moment.goals = goals := by
  simp [cyclicRefusals]

namespace Session

variable {α β : Type}

-- A session that, if it ends, keeps a property of the journal, and what is so of its result.
def Ensures (P : Journal → Prop) (session : Session α) (Q : α → Prop) : Prop :=
  ∀ journal, P journal → ∀ result after, session journal = some (result, after) →
    P after ∧ Q result

namespace Ensures

variable {P : Journal → Prop} {Q : α → Prop} {R : β → Prop}

theorem pure {result : α} (h : Q result) : Ensures P (Pure.pure result : Session α) Q := by
  intro journal hjournal result after hrun
  cases hrun
  exact ⟨hjournal, h⟩

theorem outOfFuel : Ensures P (Session.outOfFuel : Session α) Q := by
  intro journal _ result after hrun
  cases hrun

theorem bind {session : Session α} (h : Ensures P session Q) {next : α → Session β}
    (hnext : ∀ result, Q result → Ensures P (next result) R) :
    Ensures P (session >>= next) R := by
  intro journal hjournal result after hrun
  obtain ⟨⟨first, between⟩, hfirst, hrest⟩ := Option.bind_eq_some_iff.mp hrun
  obtain ⟨hbetween, hQ⟩ := h journal hjournal first between hfirst
  exact hnext first hQ between hbetween result after hrest

theorem mapM {run : α → Session β} (xs : List α) (h : ∀ x ∈ xs, Ensures P (run x) R) :
    Ensures P (xs.mapM run) (fun ys => ∀ y ∈ ys, R y) := by
  induction xs with
  | nil => exact pure (by simp)
  | cons x xs ih =>
      have hfirst := h x List.mem_cons_self
      have hrest := ih fun y hy => h y (List.mem_cons_of_mem _ hy)
      rw [List.mapM_cons]
      refine hfirst.bind fun y hy => hrest.bind fun ys hys => pure ?_
      simpa using ⟨hy, hys⟩

theorem findSomeM? {run : α → Session (Option β)} (xs : List α)
    (h : ∀ x ∈ xs, Ensures P (run x) fun _ => True) :
    Ensures P (xs.findSomeM? run) fun _ => True := by
  induction xs with
  | nil => exact pure trivial
  | cons x xs ih =>
      have hrest := ih fun y hy => h y (List.mem_cons_of_mem _ hy)
      rw [List.findSomeM?]
      refine (h x List.mem_cons_self).bind fun found _ => ?_
      cases found with
      | none => exact hrest
      | some y => exact pure trivial

end Ensures

end Session

namespace Vocabulary

variable {V : Vocabulary}

-- All goals can be read back, and no goal was refused that was not open.
structure Records (V : Vocabulary) (journal : Journal) : Prop where
  goals : ∀ goal ∈ journal.goals, V.LegibleGoal goal
  moments : ∀ moment ∈ journal.moments, moment.Genuine

theorem Records.note {journal : Journal} (h : V.Records journal) {event : Event}
    {goals : List Goal} (hgoals : ∀ goal ∈ goals, V.LegibleGoal goal)
    (hmoment : Moment.Genuine ⟨event, goals⟩) : V.Records (journal.note event goals) := by
  refine ⟨hgoals, fun moment hmem => ?_⟩
  rcases List.mem_append.mp hmem with hmem | hmem
  · exact h.moments moment hmem
  · rw [List.mem_singleton.mp hmem]
    exact hmoment

-- Among legible goals the text that is compared decides.
theorem any_key_iff {goals : List Goal} (hgoals : ∀ goal ∈ goals, V.LegibleGoal goal)
    {goal : Goal} (hgoal : V.LegibleGoal goal) :
    (goals.any fun opened => opened.key = goal.key) = true ↔ goal ∈ goals := by
  simp only [List.any_eq_true, decide_eq_true_eq]
  constructor
  · rintro ⟨opened, hopened, hkey⟩
    rwa [← key_inj (hgoals opened hopened) hgoal hkey]
  · intro hmem
    exact ⟨goal, hmem, rfl⟩

theorem enter_ensures (limit : Nat) {goal : Goal} (hgoal : V.LegibleGoal goal) :
    Session.Ensures V.Records (Session.enter limit goal) fun _ => True := by
  intro journal hjournal result after hrun
  refine ⟨?_, trivial⟩
  rw [Session.enter] at hrun
  split at hrun
  · rename_i hopen
    cases hrun
    have hmem := (any_key_iff hjournal.goals hgoal).mp hopen
    refine hjournal.note hjournal.goals ?_
    intro refused hevent
    cases hevent
    exact hmem
  · split at hrun
    · cases hrun
      refine hjournal.note hjournal.goals ?_
      intro refused hevent
      cases hevent
    · cases hrun
      refine hjournal.note (List.forall_mem_cons.mpr ⟨hgoal, hjournal.goals⟩) ?_
      intro refused hevent
      cases hevent

theorem leave_ensures : Session.Ensures V.Records Session.leave fun _ => True := by
  intro journal hjournal result after hrun
  cases hrun
  refine ⟨hjournal.note (fun goal hmem => hjournal.goals goal (List.mem_of_mem_tail hmem)) ?_,
    trivial⟩
  intro refused hevent
  cases hevent

def LegibleObligation (V : Vocabulary) (obligation : Obligation) : Prop :=
  V.Legible obligation.subject ∧ V.Legible obligation.constraint

-- What an implementation writes. Its target may be any type, as long as the parameters of the
-- vocabulary do not stand for constructors in it.
structure WritesImpl (V : Vocabulary) (env : Environment) (impl : Implementation) : Prop where
  args : ∀ arg ∈ impl.args, V.Legible arg
  obligations : ∀ obligation ∈ impl.obligations, V.LegibleObligation obligation
  target : ∀ name args, impl.target.asInterface? = some (name, args) → isName name = true
  heads : ∀ name ∈ impl.target.headNames, ¬ V.IsParam name
  placeholders : ∀ name ∈ impl.interface.constructorPlaceholders env, ¬ V.IsParam name

structure Writes (V : Vocabulary) (r : Resolver) : Prop where
  interfaces : NamesInterfaces r.env
  impls : ∀ impl ∈ r.registry.entries, V.WritesImpl r.env impl

-- Survivors have arguments that can be read back.
def LegibleAssessment (V : Vocabulary) (assessment : Assessment) : Prop :=
  ∀ survivor, assessment.survivor? = some survivor → ∀ arg ∈ survivor.args, V.Legible arg

-- All sessions with some fuel keep what is so of the journal, if what they are asked can be
-- read back.
structure Runs (V : Vocabulary) (r : Resolver) (fuel : Nat) : Prop where
  explore : ∀ {goal : Goal}, V.LegibleGoal goal →
    Session.Ensures V.Records (r.exploreRun fuel goal) fun result =>
      ∀ assessments, result = .ok assessments →
        ∀ assessment ∈ assessments, V.LegibleAssessment assessment
  resolve : ∀ {subject : Ty} {interface : String} {args : List Ty}, V.Legible subject →
    isName interface = true → (∀ arg ∈ args, V.Legible arg) →
    Session.Ensures V.Records (r.resolveRun fuel subject interface args) fun _ => True
  implements : ∀ {subject : Ty} {interface : String} {args : List Ty}, V.Legible subject →
    isName interface = true → (∀ arg ∈ args, V.Legible arg) →
    Session.Ensures V.Records (r.implementsRun fuel subject interface args) fun _ => True
  firstFailing : ∀ {ts : List Ty} {interface : String} {args : List Ty},
    (∀ t ∈ ts, V.Legible t) → isName interface = true → (∀ arg ∈ args, V.Legible arg) →
    Session.Ensures V.Records (r.firstFailingRun fuel ts interface args) fun _ => True
  obligationFault : ∀ {obligation : Obligation}, V.LegibleObligation obligation →
    Session.Ensures V.Records (r.obligationFaultRun fuel obligation) fun _ => True
  firstFailure : ∀ {obligations : List Obligation},
    (∀ obligation ∈ obligations, V.LegibleObligation obligation) →
    Session.Ensures V.Records (r.firstFailureRun fuel obligations) fun _ => True
  matchInterface : ∀ {subject : Ty} {interface : String} {targetArgs : List Ty}
    (generics : List (TypeParam Ty)), V.Legible subject → isName interface = true →
    (∀ name ∈ Ty.headNamesOfAll targetArgs, ¬ V.IsParam name) →
    Session.Ensures V.Records (r.matchInterfaceRun fuel subject interface targetArgs generics)
      (MatchValues V.IsParam V.Legible)
  matchTarget : ∀ {subject target : Ty} (generics : List (TypeParam Ty)), V.Legible subject →
    (∀ name args, target.asInterface? = some (name, args) → isName name = true) →
    (∀ name ∈ target.headNames, ¬ V.IsParam name) →
    Session.Ensures V.Records (r.matchTargetRun fuel subject target generics)
      (MatchValues V.IsParam V.Legible)
  assess : ∀ {goal : Goal} {impl : Implementation}, V.LegibleGoal goal →
    V.WritesImpl r.env impl →
    Session.Ensures V.Records (r.assessRun fuel goal impl) V.LegibleAssessment

theorem runs_zero (r : Resolver) : V.Runs r 0 := by
  constructor
  all_goals
    intros
    exact .outOfFuel

section Step

variable {r : Resolver} {fuel : Nat}

theorem legibleGoal_lookup {subject : Ty} {interface : String} {args : List Ty}
    (hsubject : V.Legible subject) (hname : isName interface = true)
    (hargs : ∀ arg ∈ args, V.Legible arg) : V.LegibleGoal (Goal.lookup subject interface args) :=
  ⟨hsubject, hname, allLegible_iff.mpr hargs, by simp [Goal.lookup]⟩

theorem legibleGoal_target {subject : Ty} {interface : String} (hsubject : V.Legible subject)
    (hname : isName interface = true) : V.LegibleGoal (Goal.target subject interface) :=
  ⟨hsubject, hname, rfl, fun _ => rfl⟩

theorem Runs.explore_succ (h : V.Runs r fuel) (hwrites : V.Writes r) {goal : Goal}
    (hgoal : V.LegibleGoal goal) :
    Session.Ensures V.Records (r.exploreRun (fuel + 1) goal) fun result =>
      ∀ assessments, result = .ok assessments →
        ∀ assessment ∈ assessments, V.LegibleAssessment assessment := by
  rw [Resolver.exploreRun]
  refine (enter_ensures r.options.maxDepth hgoal).bind fun entered _ => ?_
  cases entered with
  | error fault => exact .pure (by simp)
  | ok _ =>
      have hassess : ∀ impl ∈ r.registry.candidates (servingInterfaces goal.interface),
          Session.Ensures V.Records (r.assessRun fuel goal impl) V.LegibleAssessment := by
        intro impl himpl
        exact h.assess hgoal (hwrites.impls impl (List.mem_filter.mp himpl).1)
      refine (Session.Ensures.mapM _ hassess).bind fun assessments hassessments => ?_
      refine leave_ensures.bind fun _ _ => .pure ?_
      rintro _ ⟨⟩
      exact hassessments

theorem Runs.resolve_succ (h : V.Runs r fuel) {subject : Ty} {interface : String} {args : List Ty}
    (hsubject : V.Legible subject) (hname : isName interface = true)
    (hargs : ∀ arg ∈ args, V.Legible arg) :
    Session.Ensures V.Records (r.resolveRun (fuel + 1) subject interface args) fun _ => True := by
  rw [Resolver.resolveRun]
  refine (h.explore (legibleGoal_lookup hsubject hname hargs)).bind fun result _ => ?_
  cases result with
  | ok assessments => exact .pure trivial
  | error fault => exact .pure trivial

-- A type that is asked for through its parts has legible parts.
theorem Runs.implements_succ (h : V.Runs r fuel) {subject : Ty} {interface : String}
    {args : List Ty} (hsubject : V.Legible subject) (hname : isName interface = true)
    (hargs : ∀ arg ∈ args, V.Legible arg) :
    Session.Ensures V.Records (r.implementsRun (fuel + 1) subject interface args) fun _ => True := by
  have hdirect := h.resolve hsubject hname hargs
  cases hplain : subject.isPlain with
  | true =>
      rw [Resolver.implementsRun_of_isPlain hplain]
      split
      · split
        · exact .pure trivial
        · exact hdirect
      · exact hdirect
  | false =>
      cases subject with
      | unknown | param _ =>
          rw [Resolver.implementsRun]
          exact .pure trivial
      | nullable inner =>
          have hinner : V.Legible inner := legible_args _ hsubject rfl inner List.mem_cons_self
          rw [Resolver.implementsRun]
          refine hdirect.bind fun direct _ => ?_
          split
          · exact .pure trivial
          · exact (h.implements hinner hname hargs).bind fun _ _ => .pure trivial
      | anyOf members =>
          have hmembers := legible_hereditary.members hsubject
          rw [Resolver.implementsRun]
          refine hdirect.bind fun direct _ => ?_
          split
          · exact .pure trivial
          · refine (h.firstFailing hmembers hname hargs).bind fun failing _ => ?_
            cases failing with
            | some outcome => exact .pure trivial
            | none => exact .pure trivial
      | _ => cases hplain

theorem Runs.firstFailing_succ (h : V.Runs r fuel) {ts : List Ty} {interface : String}
    {args : List Ty} (hts : ∀ t ∈ ts, V.Legible t) (hname : isName interface = true)
    (hargs : ∀ arg ∈ args, V.Legible arg) :
    Session.Ensures V.Records (r.firstFailingRun (fuel + 1) ts interface args) fun _ => True := by
  cases ts with
  | nil =>
      rw [Resolver.firstFailingRun]
      exact .pure trivial
  | cons t ts =>
      have hfirst := h.implements (hts t List.mem_cons_self) hname hargs
      have hrest := h.firstFailing (fun u hu => hts u (List.mem_cons_of_mem _ hu)) hname hargs
      rw [Resolver.firstFailingRun]
      refine hfirst.bind fun outcome _ => ?_
      split
      · exact hrest
      · exact .pure trivial

theorem Runs.obligationFault_succ (h : V.Runs r fuel) (hwrites : V.Writes r)
    {obligation : Obligation} (hobligation : V.LegibleObligation obligation) :
    Session.Ensures V.Records (r.obligationFaultRun (fuel + 1) obligation) fun _ => True := by
  rw [Resolver.obligationFaultRun]
  cases hchecked : r.env.checkedInterface obligation.constraint with
  | error fault => exact .pure trivial
  | ok interface =>
      obtain ⟨hname, hargs⟩ :=
        checkedInterface_legible hwrites.interfaces hobligation.2 hchecked
      dsimp only
      split
      · exact .pure trivial
      · exact (h.implements hobligation.1 hname hargs).bind fun _ _ => .pure trivial

theorem Runs.firstFailure_succ (h : V.Runs r fuel) {obligations : List Obligation}
    (hobligations : ∀ obligation ∈ obligations, V.LegibleObligation obligation) :
    Session.Ensures V.Records (r.firstFailureRun (fuel + 1) obligations) fun _ => True := by
  rw [Resolver.firstFailureRun]
  exact .findSomeM? obligations fun obligation hmem =>
    (h.obligationFault (hobligations obligation hmem)).bind fun _ _ => .pure trivial

theorem bestFit_values {assessments : List Assessment}
    (hassessments : ∀ assessment ∈ assessments, V.LegibleAssessment assessment)
    {targetArgs : List Ty} (hheads : ∀ name ∈ Ty.headNamesOfAll targetArgs, ¬ V.IsParam name)
    (generics : List (TypeParam Ty)) :
    MatchValues V.IsParam V.Legible (r.bestFit targetArgs generics assessments) := by
  intro m hm
  obtain ⟨survivor, hsurvivor, hfound⟩ := Resolver.bestFit_eq_some hm
  obtain ⟨assessment, hassessment, hsurvives⟩ := List.mem_filterMap.mp hsurvivor
  exact Ty.matchArgs_values legible_hereditary hheads
    (hassessments assessment hassessment survivor hsurvives) generics m hfound

theorem Runs.matchInterface_succ (h : V.Runs r fuel) {subject : Ty} {interface : String}
    {targetArgs : List Ty} (generics : List (TypeParam Ty)) (hsubject : V.Legible subject)
    (hname : isName interface = true)
    (hheads : ∀ name ∈ Ty.headNamesOfAll targetArgs, ¬ V.IsParam name) :
    Session.Ensures V.Records (r.matchInterfaceRun (fuel + 1) subject interface targetArgs generics)
      (MatchValues V.IsParam V.Legible) := by
  rw [Resolver.matchInterfaceRun]
  refine (h.explore (legibleGoal_target hsubject hname)).bind fun result hresult => ?_
  cases result with
  | error fault => exact .pure .none
  | ok assessments => exact .pure (bestFit_values (hresult assessments rfl) hheads generics)

theorem headNames_resolveAlias (t : Ty) : t.resolveAlias.headNames = t.headNames := by
  fun_induction Ty.resolveAlias t with
  | case1 name target ih => rw [ih, Ty.headNames]
  | case2 t => rfl

theorem headNames_asInterface? {target : Ty} {name : String} {args : List Ty}
    (h : target.asInterface? = some (name, args)) : Ty.headNamesOfAll args ⊆ target.headNames := by
  rw [Ty.asInterface?] at h
  rw [← headNames_resolveAlias]
  split at h
  · obtain ⟨-, rfl⟩ : _ = name ∧ [] = args := by simpa using h
    simp [Ty.headNamesOfAll]
  · rename_i base own hresolved
    split at h
    · obtain ⟨-, rfl⟩ : _ = name ∧ own = args := by simpa using h
      rw [hresolved, Ty.headNames]
      exact List.subset_append_right _ _
    · cases h
  · cases h

theorem Runs.matchTarget_succ (h : V.Runs r fuel) {subject target : Ty}
    (generics : List (TypeParam Ty)) (hsubject : V.Legible subject)
    (htarget : ∀ name args, target.asInterface? = some (name, args) → isName name = true)
    (hheads : ∀ name ∈ target.headNames, ¬ V.IsParam name) :
    Session.Ensures V.Records (r.matchTargetRun (fuel + 1) subject target generics)
      (MatchValues V.IsParam V.Legible) := by
  rw [Resolver.matchTargetRun]
  cases hview : target.asInterface? with
  | none => exact .pure (Ty.matchType_values legible_hereditary hheads hsubject generics)
  | some view =>
      obtain ⟨interface, targetArgs⟩ := view
      have hname := htarget interface targetArgs hview
      have hargs : ∀ name ∈ Ty.headNamesOfAll targetArgs, ¬ V.IsParam name :=
        fun name hmem => hheads name (headNames_asInterface? hview hmem)
      have hinterface := h.matchInterface generics hsubject hname hargs
      dsimp only
      split
      · exact .pure .none
      · split
        · rename_i name ownArgs hown
          split
          · exact .pure (Ty.matchArgs_values legible_hereditary hargs
              (legible_asInterface? hsubject hown) generics)
          · exact hinterface
        · exact hinterface

theorem Runs.assess_succ (h : V.Runs r fuel) {goal : Goal} {impl : Implementation}
    (hgoal : V.LegibleGoal goal) (himpl : V.WritesImpl r.env impl) :
    Session.Ensures V.Records (r.assessRun (fuel + 1) goal impl) V.LegibleAssessment := by
  rw [Resolver.assessRun]
  refine (h.matchTarget impl.generics hgoal.subject himpl.target himpl.heads).bind
    fun matched hmatched => ?_
  cases matched with
  | none => exact .pure (by simp [LegibleAssessment, Assessment.survivor?])
  | some found =>
      have hs := complete_values himpl.placeholders himpl.args hgoal.subject (hmatched found rfl)
      dsimp only
      generalize Substitution.complete found.substitution r.env impl goal.subject = s at hs ⊢
      have hargs : ∀ arg ∈ impl.args.map (Ty.substitute · s), V.Legible arg := by
        intro arg harg
        obtain ⟨written, hwritten, rfl⟩ := List.mem_map.mp harg
        exact legible_substitute hs (himpl.args written hwritten)
      have hobligations : ∀ obligation ∈ impl.obligations.map (Obligation.substitute · s),
          V.LegibleObligation obligation := by
        intro obligation hmem
        obtain ⟨written, hwritten, rfl⟩ := List.mem_map.mp hmem
        obtain ⟨hsubject, hconstraint⟩ := himpl.obligations written hwritten
        exact ⟨legible_substitute hs hsubject, legible_substitute hs hconstraint⟩
      split
      · exact .pure (by simp [LegibleAssessment, Assessment.survivor?])
      · refine (h.firstFailure hobligations).bind fun failure _ => ?_
        cases failure with
        | some failure => exact .pure (by simp [LegibleAssessment, Assessment.survivor?])
        | none =>
            refine .pure ?_
            rintro _ ⟨⟩
            exact hargs

end Step

-- A call has one less to spend on the calls it makes, and so the induction on the fuel covers
-- all of them.
theorem runs (V : Vocabulary) {r : Resolver} (hwrites : V.Writes r) (fuel : Nat) :
    V.Runs r fuel := by
  induction fuel with
  | zero => exact runs_zero r
  | succ fuel ih =>
      exact {
        explore := ih.explore_succ hwrites
        resolve := ih.resolve_succ
        implements := ih.implements_succ
        firstFailing := ih.firstFailing_succ
        obligationFault := ih.obligationFault_succ hwrites
        firstFailure := ih.firstFailure_succ
        matchInterface := ih.matchInterface_succ
        matchTarget := ih.matchTarget_succ
        assess := ih.assess_succ }

end Vocabulary

-- Sessions that start inside some goals refuse a goal as cyclic only if it is among the goals
-- that are open at that moment.
def RefusesOpenGoals {α : Type} (goals : List Goal) (run : Nat → Session α) : Prop :=
  ∀ fuel result journal, run fuel ⟨goals, []⟩ = some (result, journal) →
    ∀ refused opened, (refused, opened) ∈ journal.cyclicRefusals → refused ∈ opened

theorem refusesOpenGoals_of_ensures {α : Type} {V : Vocabulary} {goals : List Goal}
    (hgoals : ∀ goal ∈ goals, V.LegibleGoal goal) {run : Nat → Session α} {Q : α → Prop}
    (h : ∀ fuel, Session.Ensures V.Records (run fuel) Q) : RefusesOpenGoals goals run := by
  intro fuel result journal hrun refused opened hrefused
  have hstart : V.Records ⟨goals, []⟩ := ⟨hgoals, by simp⟩
  obtain ⟨hrecords, -⟩ := h fuel _ hstart result journal hrun
  obtain ⟨moment, hmoment, hcyclic, rfl⟩ := Journal.mem_cyclicRefusals.mp hrefused
  exact hrecords.moments moment hmoment refused hcyclic

-- Whatever is asked in a vocabulary inside some goals, only open goals are refused as cyclic.
structure Resolver.RefusesRepeats (r : Resolver) (V : Vocabulary) (goals : List Goal) : Prop where
  resolve : ∀ subject interface args, V.Legible subject → isName interface = true →
    (∀ arg ∈ args, V.Legible arg) →
    RefusesOpenGoals goals fun fuel => r.resolveRun fuel subject interface args
  implements : ∀ subject interface args, V.Legible subject → isName interface = true →
    (∀ arg ∈ args, V.Legible arg) →
    RefusesOpenGoals goals fun fuel => r.implementsRun fuel subject interface args
  matchTarget : ∀ subject target generics, V.Legible subject →
    (∀ name args, target.asInterface? = some (name, args) → isName name = true) →
    (∀ name ∈ target.headNames, ¬ V.IsParam name) →
    RefusesOpenGoals goals fun fuel => r.matchTargetRun fuel subject target generics
  obligations : ∀ obligations, (∀ obligation ∈ obligations, V.LegibleObligation obligation) →
    RefusesOpenGoals goals fun fuel => r.firstFailureRun fuel obligations

-- Where all implementations and all open goals are written in one vocabulary, the text of a
-- goal identifies it, and a goal that is refused as cyclic is open.
theorem cyclic_goals_are_open (V : Vocabulary) (r : Resolver) (goals : List Goal)
    (hwrites : V.Writes r) (hgoals : ∀ goal ∈ goals, V.LegibleGoal goal) :
    (∀ a b, V.LegibleGoal a → V.LegibleGoal b → (a.key = b.key ↔ a = b)) ∧
      r.RefusesRepeats V goals := by
  have hruns := Vocabulary.runs V hwrites
  refine ⟨fun a b ha hb => ⟨Vocabulary.key_inj ha hb, congrArg Goal.key⟩, ?_⟩
  exact {
    resolve := fun _ _ _ hsubject hname hargs =>
      refusesOpenGoals_of_ensures hgoals fun fuel => (hruns fuel).resolve hsubject hname hargs
    implements := fun _ _ _ hsubject hname hargs =>
      refusesOpenGoals_of_ensures hgoals fun fuel => (hruns fuel).implements hsubject hname hargs
    matchTarget := fun _ _ generics hsubject htarget hheads =>
      refusesOpenGoals_of_ensures hgoals fun fuel =>
        (hruns fuel).matchTarget generics hsubject htarget hheads
    obligations := fun _ hobligations =>
      refusesOpenGoals_of_ensures hgoals fun fuel => (hruns fuel).firstFailure hobligations }

namespace Showing

def interface : InterfaceDecl := { name := "Show" }

def env : Environment := Environment.define ∅ "Show" (.interface interface)

def demand (subject : Ty) : Obligation where
  owner := "Show"
  param := "T"
  constraint := interface.toTy
  subject := subject

-- An array is shown if it is shown.
def circular : Resolver where
  env := env
  registry := ⟨[{
    interface := interface
    generics := [⟨"T", []⟩]
    target := .unary .array (.param "T")
    obligations := [demand (.unary .array (.param "T"))] }]⟩

def vocabulary : Vocabulary := ⟨[("Show", .declared .interface []), ("T", .param)]⟩

-- An array of values that may be missing is shown, and an array that may be missing is shown
-- if that is.
def nullable : Resolver where
  env := env
  registry := ⟨[
    { interface := interface, target := .unary .array (.nullable .bool) },
    { interface := interface
      generics := [⟨"T", []⟩]
      target := .nullable (.unary .array (.param "T"))
      obligations := [demand (.unary .array (.nullable (.param "T")))] }]⟩

def missingArray : Goal := Goal.lookup (.nullable (.unary .array .bool)) "Show" []

def arrayOfMissing : Goal := Goal.lookup (.unary .array (.nullable .bool)) "Show" []

end Showing

-- Two types have one text, and a goal is refused that would be met and is not open.
theorem array_of_nullable_refused_as_cyclic :
    Showing.missingArray ≠ Showing.arrayOfMissing ∧
      (Showing.nullable.resolveRun 20 Showing.missingArray.subject "Show" [] ⟨[], []⟩).map
        (fun (outcome, journal) => (outcome.isResolved, journal.cyclicRefusals)) =
          some (false, [(Showing.arrayOfMissing, [Showing.missingArray])]) ∧
      (Showing.nullable.resolve Showing.arrayOfMissing.subject "Show" []).isResolved = true := by
  decide +kernel

theorem Showing.vocabulary_writes : Showing.vocabulary.Writes Showing.circular where
  interfaces := by
    intro name decl hlookup
    by_cases hname : "Show" = name
    · subst hname
      obtain rfl : Showing.interface = decl := by
        simpa [Showing.circular, Showing.env, Environment.define, Environment.lookup?] using hlookup
      decide
    · have hnone : Showing.circular.env.lookup? name = none := by
        have hscope : Showing.env.scope.get? name = none := by
          rw [Showing.env, Environment.define, Bindings.get?_insert, if_neg hname]
          rfl
        simp only [Showing.circular, Environment.lookup?, List.findSome?, hscope]
        rfl
      rw [hnone] at hlookup
      cases hlookup
  impls := by
    intro impl himpl
    obtain rfl := List.mem_singleton.mp himpl
    exact {
      args := by simp
      obligations := by
        intro obligation hmem
        obtain rfl := List.mem_singleton.mp hmem
        exact ⟨by decide +kernel, by decide +kernel⟩
      target := by
        intro name args hview
        cases hview
      heads := by simp [Ty.headNames]
      placeholders := by simp [InterfaceDecl.constructorPlaceholders, Showing.interface] }

-- The array is asked for again while it is open, question mark and all.
theorem circular_array_refused_while_open :
    Showing.vocabulary.Writes Showing.circular ∧
      Showing.circular.RefusesRepeats Showing.vocabulary [] ∧
      (Showing.circular.resolveRun 20 Showing.arrayOfMissing.subject "Show" [] ⟨[], []⟩).map
        (fun (_, journal) => journal.cyclicRefusals) =
          some [(Showing.arrayOfMissing, [Showing.arrayOfMissing])] :=
  ⟨Showing.vocabulary_writes,
    (cyclic_goals_are_open Showing.vocabulary Showing.circular [] Showing.vocabulary_writes
      (by simp)).2, by decide +kernel⟩

end Conformance
