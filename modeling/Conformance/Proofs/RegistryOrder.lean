import Conformance.Proofs.Exploration

namespace Conformance

-- Two outcomes agree that differ at most in the reason of a refusal.
def Outcome.Agrees : Outcome → Outcome → Prop
  | .resolved a, .resolved b => a = b
  | .ambiguous a, .ambiguous b => a = b
  | .unsatisfied a, .unsatisfied b => a.subject = b.subject ∧ a.interface = b.interface
  | _, _ => False

theorem Outcome.Agrees.isResolved_eq {a b : Outcome} (h : a.Agrees b) :
    a.isResolved = b.isResolved := by
  cases a <;> cases b <;> simp_all [Agrees, Outcome.isResolved]

-- Lists with the same members once what a map drops is left out are lists in another order.
theorem exists_perm_filterMap {α β : Type} (f : α → Option β) {xs : List α} {ys : List β}
    (h : (xs.filterMap f).Perm ys) : ∃ xs', xs.Perm xs' ∧ xs'.filterMap f = ys := by
  induction xs generalizing ys with
  | nil => exact ⟨[], .refl _, h.nil_eq⟩
  | cons x xs ih =>
      cases hx : f x with
      | none =>
          rw [List.filterMap_cons_none hx] at h
          obtain ⟨xs', hperm, heq⟩ := ih h
          exact ⟨x :: xs', hperm.cons x, by rw [List.filterMap_cons_none hx, heq]⟩
      | some y =>
          rw [List.filterMap_cons_some hx] at h
          -- The image of `x` stands somewhere in the new order; `x` goes to its place.
          obtain ⟨before, after, rfl⟩ := List.append_of_mem (h.mem_iff.mp List.mem_cons_self)
          obtain ⟨xs', hperm, heq⟩ := ih (h.trans List.perm_middle).cons_inv
          obtain ⟨left, right, rfl, hleft, hright⟩ := List.filterMap_eq_append_iff.mp heq
          refine ⟨left ++ x :: right, (hperm.cons x).trans List.perm_middle.symm, ?_⟩
          rw [List.filterMap_append, List.filterMap_cons_some hx, hleft, hright]

namespace Resolver

def reorder (r : Resolver) (entries : List Implementation) : Resolver :=
  { r with registry := ⟨entries⟩ }

-- The goals that may be asked for on the way to an answer, each with the levels left for
-- it and the goals around it: the target of a blanket implementation, and every part of
-- the subject of an obligation. A goal that is refused asks for nothing.
inductive Asks (r : Resolver) (origin : Goal) : Nat → List Goal → Goal → Prop
  | origin : Asks r origin r.options.maxDepth [] origin
  | blanket {room : Nat} {goals : List Goal} {goal : Goal} {impl : Implementation}
      {interface : String} {targetArgs : List Ty} :
      Asks r origin (room + 1) goals goal → refuses (room + 1) goals goal = false →
      impl ∈ r.registry.candidates (servingInterfaces goal.interface) →
      impl.target.asInterface? = some (interface, targetArgs) →
      Asks r origin room (goal :: goals) (Goal.target goal.subject interface)
  | obligation {room : Nat} {goals : List Goal} {goal : Goal} {impl : Implementation}
      {found : Match} {obligation : Obligation} {interface : ConstraintInterface} {part : Ty} :
      Asks r origin (room + 1) goals goal → refuses (room + 1) goals goal = false →
      impl ∈ r.registry.candidates (servingInterfaces goal.interface) →
      r.matchTargetIn (r.explorer room) (goal :: goals) goal.subject impl.target impl.generics =
        some found →
      obligation ∈ impl.obligations →
      r.env.checkedInterface (obligation.substitute
        (Substitution.complete found.substitution r.env impl goal.subject)).constraint =
          .ok interface →
      part ∈ (obligation.substitute
        (Substitution.complete found.substitution r.env impl goal.subject)).subject.parts →
      Asks r origin room (goal :: goals) (Goal.lookup part interface.name interface.args)

-- A place where survivors compete: a goal with the levels left for it and the goals around
-- it and, where the goal is the target of a blanket implementation, the arguments that the
-- survivors have to fit.
structure Contest where
  room : Nat
  goals : List Goal
  goal : Goal
  fit : Option (List Ty × List (TypeParam Ty))

def contestants (r : Resolver) (contest : Contest) : List Survivor :=
  let survivors := r.survivors contest.room contest.goals contest.goal
  match contest.fit with
  | none => survivors
  | some (targetArgs, generics) =>
      survivors.filter fun survivor => (Ty.matchArgs survivor.args targetArgs generics).isSome

-- The contests that may be held on the way to an answer.
inductive Stages (r : Resolver) (origin : Goal) : Contest → Prop
  | lookup {room : Nat} {goals : List Goal} {subject : Ty} {interface : String} {args : List Ty} :
      r.Asks origin room goals (Goal.lookup subject interface args) →
      refuses room goals (Goal.lookup subject interface args) = false →
      Stages r origin ⟨room, goals, Goal.lookup subject interface args, none⟩
  | blanket {room : Nat} {goals : List Goal} {goal : Goal} {impl : Implementation}
      {interface : String} {targetArgs : List Ty} :
      r.Asks origin (room + 1) goals goal → refuses (room + 1) goals goal = false →
      impl ∈ r.registry.candidates (servingInterfaces goal.interface) →
      impl.target.asInterface? = some (interface, targetArgs) →
      refuses room (goal :: goals) (Goal.target goal.subject interface) = false →
      Stages r origin ⟨room, goal :: goals, Goal.target goal.subject interface,
        some (targetArgs, impl.generics)⟩

-- Every contest on the way to an answer has a leader.
def Led (r : Resolver) (origin : Goal) : Prop :=
  ∀ contest, r.Stages origin contest → Decisive r.compare (r.contestants contest)

-- No order of the registry changes the choice in any contest on the way to an answer.
def OrderFree (r : Resolver) (origin : Goal) : Prop :=
  ∀ contest, r.Stages origin contest → ∀ entries, r.registry.entries.Perm entries →
    SelectsAlike r.compare (fun survivor => survivor.impl.interfaceName)
      (r.contestants contest) ((r.reorder entries).contestants contest)

theorem outcome_agrees (goal : Goal) (detail detail' : String) {a b : Option (Choice Survivor)}
    (h : Option.Rel Choice.Agrees a b) :
    (outcome goal detail a).Agrees (outcome goal detail' b) := by
  cases h with
  | none => exact ⟨rfl, rfl⟩
  | @some a b h =>
      cases a with
      | winner a =>
          cases b with
          | winner b => exact congrArg (fun survivor : Survivor => survivor.resolution goal) h
          | tied bs => exact h
      | tied as =>
          cases b with
          | winner b => exact h
          | tied bs =>
              simp only [outcome, Outcome.Agrees]
              rw [labelSet_perm (List.Perm.map (fun survivor => survivor.label goal.subject) h)]

section Reorder

variable {r : Resolver} {entries : List Implementation}

-- A lookup whose survivors are chosen alike has outcomes that agree.
theorem resolveIn_reorder_agrees {room : Nat} {goals : List Goal} {subject : Ty}
    {interface : String} {args : List Ty}
    (h : refuses room goals (Goal.lookup subject interface args) = false →
      SelectsAlike r.compare (fun survivor => survivor.impl.interfaceName)
        (r.survivors room goals (Goal.lookup subject interface args))
        ((r.reorder entries).survivors room goals (Goal.lookup subject interface args))) :
    (r.resolveIn (r.explorer room) goals subject interface args).Agrees
      ((r.reorder entries).resolveIn ((r.reorder entries).explorer room) goals subject interface
        args) := by
  cases hrefuses : refuses room goals (Goal.lookup subject interface args) with
  | true =>
      obtain ⟨detail, heq⟩ := r.resolveIn_refused hrefuses
      obtain ⟨detail', heq'⟩ := (r.reorder entries).resolveIn_refused hrefuses
      rw [heq, heq']
      exact ⟨rfl, rfl⟩
  | false =>
      obtain ⟨detail, heq⟩ := r.resolveIn_opened hrefuses
      obtain ⟨detail', heq'⟩ := (r.reorder entries).resolveIn_opened hrefuses
      rw [heq, heq']
      exact outcome_agrees _ _ _ (h hrefuses)

instance : Std.OrientedCmp fun a b : Survivor × Match => r.compare a.1 b.1 :=
  ⟨Std.OrientedCmp.eq_swap⟩

-- The best fit is the match of one of the survivors.
theorem bestFit_eq_some {targetArgs : List Ty} {generics : List (TypeParam Ty)}
    {assessments : List Assessment} {found : Match}
    (h : r.bestFit targetArgs generics assessments = some found) :
    ∃ survivor ∈ assessments.filterMap Assessment.survivor?,
      Ty.matchArgs survivor.args targetArgs generics = some found := by
  rw [bestFit] at h
  unfold matchOfChoice at h
  split at h
  · rename_i candidate hselect
    obtain rfl := Option.some.inj h
    obtain ⟨survivor, hsurvivor, hfit⟩ := List.mem_filterMap.mp (mem_of_select_winner hselect)
    obtain ⟨found, hfound, rfl⟩ := Option.map_eq_some_iff.mp hfit
    exact ⟨survivor, hsurvivor, hfound⟩
  · cases h

theorem map_fst_fit (targetArgs : List Ty) (generics : List (TypeParam Ty))
    (survivors : List Survivor) :
    (survivors.filterMap (fit? targetArgs generics)).map Prod.fst =
      survivors.filter fun survivor => (Ty.matchArgs survivor.args targetArgs generics).isSome := by
  induction survivors with
  | nil => rfl
  | cons survivor survivors ih =>
      cases h : Ty.matchArgs survivor.args targetArgs generics with
      | none => simp [fit?, h, ← ih]
      | some found => simp [fit?, h, ← ih]

theorem matchOfChoice_agrees {a b : Option (Choice (Survivor × Match))}
    (h : Option.Rel Choice.Agrees a b) : matchOfChoice a = matchOfChoice b := by
  cases h with
  | none => rfl
  | @some a b h =>
      cases a with
      | winner a =>
          cases b with
          | winner b => exact congrArg (fun candidate : Survivor × Match => some candidate.2) h
          | tied bs => exact h.elim
      | tied as =>
          cases b with
          | winner b => exact h.elim
          | tied bs => rfl

theorem matchInterface_reorder {room : Nat} {goals : List Goal} {subject : Ty} {interface : String}
    {targetArgs : List Ty} {generics : List (TypeParam Ty)}
    (hperm : refuses room goals (Goal.target subject interface) = false →
      (r.survivors room goals (Goal.target subject interface)).Perm
        ((r.reorder entries).survivors room goals (Goal.target subject interface)))
    (hdecisive : refuses room goals (Goal.target subject interface) = false →
      Decisive r.compare ((r.survivors room goals (Goal.target subject interface)).filter
        fun survivor => (Ty.matchArgs survivor.args targetArgs generics).isSome)) :
    r.matchInterface (r.explorer room) goals subject interface targetArgs generics =
      (r.reorder entries).matchInterface ((r.reorder entries).explorer room) goals subject
        interface targetArgs generics := by
  cases hrefuses : refuses room goals (Goal.target subject interface) with
  | true =>
      rw [matchInterface_refused r _ _ hrefuses, matchInterface_refused _ _ _ hrefuses]
  | false =>
      rw [matchInterface_opened r _ _ hrefuses, matchInterface_opened _ _ _ hrefuses]
      apply matchOfChoice_agrees
      have hpairs := (hperm hrefuses).filterMap (fit? targetArgs generics)
      have hdecisive := hdecisive hrefuses
      rw [← map_fst_fit] at hdecisive
      exact (decisive_map Prod.fst hdecisive).selectsAlike hpairs

theorem matchTargetIn_reorder {room : Nat} {goals : List Goal} {subject target : Ty}
    {generics : List (TypeParam Ty)}
    (h : ∀ interface targetArgs, target.asInterface? = some (interface, targetArgs) →
      r.matchInterface (r.explorer room) goals subject interface targetArgs generics =
        (r.reorder entries).matchInterface ((r.reorder entries).explorer room) goals subject
          interface targetArgs generics) :
    r.matchTargetIn (r.explorer room) goals subject target generics =
      (r.reorder entries).matchTargetIn ((r.reorder entries).explorer room) goals subject target
        generics := by
  unfold matchTargetIn
  cases htarget : target.asInterface? with
  | none => rfl
  | some pair => simp only [h pair.1 pair.2 htarget]

theorem holds_reorder {room : Nat} {goals : List Goal} {obligation : Obligation}
    (h : ∀ interface, r.env.checkedInterface obligation.constraint = .ok interface →
      ∀ part ∈ obligation.subject.parts,
        (r.resolveIn (r.explorer room) goals part interface.name interface.args).Agrees
          ((r.reorder entries).resolveIn ((r.reorder entries).explorer room) goals part
            interface.name interface.args)) :
    r.Holds (r.explorer room) goals obligation ↔
      (r.reorder entries).Holds ((r.reorder entries).explorer room) goals obligation := by
  have hsame : ∀ interface, r.env.checkedInterface obligation.constraint = .ok interface →
      (r.implementsIn (r.explorer room) goals obligation.subject interface.name
        interface.args).isResolved =
      ((r.reorder entries).implementsIn ((r.reorder entries).explorer room) goals
        obligation.subject interface.name interface.args).isResolved :=
    fun interface hinterface => implementsBy_isResolved_congr obligation.subject
      fun part hpart => (h interface hinterface part hpart).isResolved_eq
  constructor
  · rintro ⟨interface, hinterface, hcases⟩
    exact ⟨interface, hinterface, hsame interface hinterface ▸ hcases⟩
  · rintro ⟨interface, hinterface, hcases⟩
    exact ⟨interface, hinterface, (hsame interface hinterface).symm ▸ hcases⟩

theorem assess_survivor?_reorder {room : Nat} {goals : List Goal} {goal : Goal}
    {impl : Implementation}
    (hmatch : r.matchTargetIn (r.explorer room) goals goal.subject impl.target impl.generics =
      (r.reorder entries).matchTargetIn ((r.reorder entries).explorer room) goals goal.subject
        impl.target impl.generics)
    (hholds : ∀ found,
      r.matchTargetIn (r.explorer room) goals goal.subject impl.target impl.generics = some found →
      ∀ obligation ∈ impl.obligations,
        (r.Holds (r.explorer room) goals (obligation.substitute
          (Substitution.complete found.substitution r.env impl goal.subject)) ↔
        (r.reorder entries).Holds ((r.reorder entries).explorer room) goals
          (obligation.substitute
            (Substitution.complete found.substitution r.env impl goal.subject)))) :
    (r.assess (r.explorer room) goals goal impl).survivor? =
      ((r.reorder entries).assess ((r.reorder entries).explorer room) goals goal
        impl).survivor? := by
  apply Option.ext
  intro survivor
  rw [assess_survivor?_eq_some_iff, assess_survivor?_eq_some_iff, ← hmatch]
  constructor
  · rintro ⟨found, hfound, himpl, hs, hargs, hscore, hcompatible, hobligations⟩
    refine ⟨found, hfound, himpl, hs, hargs, hscore, hcompatible, fun obligation hmem => ?_⟩
    have hhere := hobligations obligation hmem
    rw [hs] at hhere ⊢
    exact (hholds found hfound obligation hmem).mp hhere
  · rintro ⟨found, hfound, himpl, hs, hargs, hscore, hcompatible, hobligations⟩
    refine ⟨found, hfound, himpl, hs, hargs, hscore, hcompatible, fun obligation hmem => ?_⟩
    have hhere := hobligations obligation hmem
    rw [hs] at hhere ⊢
    exact (hholds found hfound obligation hmem).mpr hhere

variable {origin : Goal}

-- A candidate for a goal survives in every order of the registry or in none. The goals
-- nested in it are answered alike, since each of them is decided by a leader.
theorem survivor?_reorder {room : Nat}
    (hdecisive : ∀ contest, r.Stages origin contest → contest.room ≤ room →
      Decisive r.compare (r.contestants contest))
    {goals : List Goal} {goal : Goal} {impl : Implementation}
    (hasks : r.Asks origin (room + 1) goals goal) (hopen : refuses (room + 1) goals goal = false)
    (himpl : impl ∈ r.registry.candidates (servingInterfaces goal.interface))
    (hnested : ∀ goals' goal', r.Asks origin room goals' goal' → refuses room goals' goal' = false →
      (r.survivors room goals' goal').Perm ((r.reorder entries).survivors room goals' goal')) :
    (r.assess (r.explorer room) (goal :: goals) goal impl).survivor? =
      ((r.reorder entries).assess ((r.reorder entries).explorer room) (goal :: goals) goal
        impl).survivor? := by
  apply assess_survivor?_reorder
  · apply matchTargetIn_reorder
    intro interface targetArgs htarget
    apply matchInterface_reorder
    · intro hrefuses
      exact hnested _ _ (.blanket hasks hopen himpl htarget) hrefuses
    · intro hrefuses
      exact hdecisive _ (.blanket hasks hopen himpl htarget hrefuses) (Nat.le_refl room)
  · intro found hfound obligation hmem
    apply holds_reorder
    intro interface hinterface part hpart
    apply resolveIn_reorder_agrees
    intro hrefuses
    have hpart := Asks.obligation hasks hopen himpl hfound hmem hinterface hpart
    have hleader := hdecisive _ (.lookup hpart hrefuses) (Nat.le_refl room)
    exact hleader.selectsAlike (hnested _ _ hpart hrefuses)

theorem candidates_reorder (hperm : r.registry.entries.Perm entries) (interfaces : List String) :
    (r.registry.candidates interfaces).Perm ((r.reorder entries).registry.candidates interfaces) :=
  hperm.filter _

-- The survivors of a goal are the same in every order of the registry. The induction is on
-- the levels left, which the goals nested in a goal have one less of.
theorem survivors_reorder (hperm : r.registry.entries.Perm entries) {room : Nat}
    (hdecisive : ∀ contest, r.Stages origin contest → contest.room < room →
      Decisive r.compare (r.contestants contest))
    {goals : List Goal} {goal : Goal} (hasks : r.Asks origin room goals goal)
    (hopen : refuses room goals goal = false) :
    (r.survivors room goals goal).Perm ((r.reorder entries).survivors room goals goal) := by
  induction room generalizing goals goal with
  | zero => simp [refuses] at hopen
  | succ room ih =>
      have hbelow : ∀ contest, r.Stages origin contest → contest.room ≤ room →
          Decisive r.compare (r.contestants contest) :=
        fun contest hcontest hroom => hdecisive contest hcontest (Nat.lt_succ_of_le hroom)
      rw [survivors_succ, survivors_succ]
      have hsame : ((r.registry.candidates (servingInterfaces goal.interface)).filterMap
          fun impl => (r.assess (r.explorer room) (goal :: goals) goal impl).survivor?) =
          (r.registry.candidates (servingInterfaces goal.interface)).filterMap fun impl =>
            ((r.reorder entries).assess ((r.reorder entries).explorer room) (goal :: goals) goal
              impl).survivor? := by
        apply List.filterMap_congr
        intro impl himpl
        apply survivor?_reorder hbelow hasks hopen himpl
        intro goals' goal' hasks' hopen'
        exact ih (fun contest hcontest hroom => hbelow contest hcontest (Nat.le_of_lt hroom))
          hasks' hopen'
      rw [hsame]
      exact (candidates_reorder hperm (servingInterfaces goal.interface)).filterMap _

-- Every order of the survivors is brought about by an order of the registry.
theorem exists_reorder_survivors {room : Nat}
    (hdecisive : ∀ contest, r.Stages origin contest → contest.room < room →
      Decisive r.compare (r.contestants contest))
    {goals : List Goal} {goal : Goal} (hasks : r.Asks origin room goals goal)
    (hopen : refuses room goals goal = false) {survivors : List Survivor}
    (hperm : (r.survivors room goals goal).Perm survivors) :
    ∃ entries, r.registry.entries.Perm entries ∧
      (r.reorder entries).survivors room goals goal = survivors := by
  cases room with
  | zero => simp [refuses] at hopen
  | succ room =>
      have hbelow : ∀ contest, r.Stages origin contest → contest.room ≤ room →
          Decisive r.compare (r.contestants contest) :=
        fun contest hcontest hroom => hdecisive contest hcontest (Nat.lt_succ_of_le hroom)
      rw [survivors_succ, Registry.candidates, List.filterMap_filter] at hperm
      obtain ⟨entries, hentries, heq⟩ := exists_perm_filterMap _ hperm
      refine ⟨entries, hentries, ?_⟩
      rw [survivors_succ, Registry.candidates, List.filterMap_filter, ← heq]
      apply List.filterMap_congr
      intro impl himpl
      split_ifs with hcandidate
      · have hmem : impl ∈ r.registry.candidates (servingInterfaces goal.interface) :=
          List.mem_filter.mpr ⟨hentries.mem_iff.mpr himpl, hcandidate⟩
        symm
        apply survivor?_reorder hbelow hasks hopen hmem
        intro goals' goal' hasks' hopen'
        exact survivors_reorder hentries
          (fun contest hcontest hroom => hbelow contest hcontest (Nat.le_of_lt hroom))
          hasks' hopen'
      · rfl

theorem Stages.asks {contest : Contest} (h : r.Stages origin contest) :
    r.Asks origin contest.room contest.goals contest.goal ∧
      refuses contest.room contest.goals contest.goal = false := by
  cases h with
  | lookup hasks hopen => exact ⟨hasks, hopen⟩
  | blanket hasks hopen himpl htarget hrefuses =>
      exact ⟨.blanket hasks hopen himpl htarget, hrefuses⟩

theorem contestants_reorder (hperm : r.registry.entries.Perm entries) {contest : Contest}
    (hstages : r.Stages origin contest)
    (hdecisive : ∀ other, r.Stages origin other → other.room < contest.room →
      Decisive r.compare (r.contestants other)) :
    (r.contestants contest).Perm ((r.reorder entries).contestants contest) := by
  obtain ⟨hasks, hopen⟩ := hstages.asks
  have hsurvivors := survivors_reorder hperm hdecisive hasks hopen
  unfold contestants
  split
  · exact hsurvivors
  · exact hsurvivors.filter _

theorem exists_reorder_contestants {contest : Contest} (hstages : r.Stages origin contest)
    (hdecisive : ∀ other, r.Stages origin other → other.room < contest.room →
      Decisive r.compare (r.contestants other))
    {survivors : List Survivor} (hperm : (r.contestants contest).Perm survivors) :
    ∃ entries, r.registry.entries.Perm entries ∧
      (r.reorder entries).contestants contest = survivors := by
  obtain ⟨hasks, hopen⟩ := hstages.asks
  obtain ⟨room, goals, goal, fit⟩ := contest
  cases fit with
  | none => exact exists_reorder_survivors hdecisive hasks hopen hperm
  | some pair =>
      simp only [contestants, ← List.filterMap_eq_filter] at hperm ⊢
      obtain ⟨all, hall, heq⟩ := exists_perm_filterMap _ hperm
      obtain ⟨entries, hentries, rfl⟩ := exists_reorder_survivors hdecisive hasks hopen hall
      exact ⟨entries, hentries, heq⟩

theorem Led.orderFree (h : r.Led origin) : r.OrderFree origin := by
  intro contest hstages entries hentries
  have hperm := contestants_reorder hentries hstages fun other hother _ => h other hother
  exact (h contest hstages).selectsAlike hperm

-- The innermost contests have leaders first, and those around them follow.
theorem OrderFree.led (h : r.OrderFree origin) : r.Led origin := by
  intro contest hstages
  induction hroom : contest.room using Nat.strong_induction_on generalizing contest with
  | _ room ih =>
      have hinner : ∀ other, r.Stages origin other → other.room < contest.room →
          Decisive r.compare (r.contestants other) :=
        fun other hother hlt => ih other.room (hroom ▸ hlt) other hother rfl
      rw [← selectsAlike_iff_decisive fun survivor => survivor.impl.interfaceName]
      intro others hothers
      obtain ⟨entries, hentries, rfl⟩ := exists_reorder_contestants hstages hinner hothers
      exact h contest hstages entries hentries

end Reorder

-- Two candidates for every interface are too few for a choice without a leader.
theorem decisive_of_two_candidates {r : Resolver}
    (h : ∀ interface, (r.registry.candidates (servingInterfaces interface)).length ≤ 2)
    (contest : Contest) : Decisive r.compare (r.contestants contest) := by
  have hsurvivors : (r.survivors contest.room contest.goals contest.goal).length ≤ 2 := by
    cases contest.room with
    | zero => simp [survivors_zero]
    | succ room =>
        rw [survivors_succ]
        exact (List.length_filterMap_le _ _).trans (h contest.goal.interface)
  apply decisive_of_length_le_two
  unfold contestants
  split
  · exact hsurvivors
  · exact (List.length_filter_le _ _).trans hsurvivors

end Resolver

-- The order of the registry is irrelevant to all choices on the way to an answer exactly
-- where each of them has a leader. Then the outcomes in any two orders agree.
theorem resolve_order_irrelevant_iff (r : Resolver) (subject : Ty) (interface : String)
    (args : List Ty) :
    (r.OrderFree (Goal.lookup subject interface args) ↔
      r.Led (Goal.lookup subject interface args)) ∧
    (r.Led (Goal.lookup subject interface args) →
      ∀ entries, r.registry.entries.Perm entries →
        (r.resolve subject interface args).Agrees
          ((r.reorder entries).resolve subject interface args)) := by
  refine ⟨⟨Resolver.OrderFree.led, Resolver.Led.orderFree⟩, ?_⟩
  intro hled entries hentries
  apply Resolver.resolveIn_reorder_agrees
  intro hopen
  exact hled.orderFree _ (.lookup .origin hopen) entries hentries

namespace Circle

def bounds : List String := ["Display", "Clone", "Hash"]

-- An interface that every type implements.
def everywhere (interface : String) : Implementation :=
  { interface := { name := interface }, generics := [⟨"X", []⟩], target := .param "X" }

def resolver (impls : List Implementation) : Resolver where
  env := ("Show" :: bounds).foldl
    (fun env name => env.define name (.interface { name := name })) ∅
  registry := ⟨bounds.map everywhere ++ impls⟩

def goal : Goal := Goal.lookup subject "Show" []

theorem candidates_length_le (interface : String) :
    ((resolver [generalImpl, nestedImpl]).registry.candidates
      (servingInterfaces interface)).length ≤ 2 := by
  by_cases hname : interface ∈ "Show" :: bounds
  · revert interface
    decide +kernel
  · have hnone : (resolver [generalImpl, nestedImpl]).registry.candidates
        (servingInterfaces interface) = [] := by
      have hnames : ∀ impl ∈ (resolver [generalImpl, nestedImpl]).registry.entries,
          impl.interfaceName ∈ "Show" :: bounds := by
        decide +kernel
      apply List.eq_nil_iff_forall_not_mem.mpr
      intro impl himpl
      obtain ⟨hentry, -, hserves⟩ := Registry.mem_candidates.mp himpl
      have hknown := hnames impl hentry
      rcases mem_servingInterfaces.mp hserves with heq | ⟨-, heq⟩ | ⟨-, heq⟩
      · exact hname (heq ▸ hknown)
      · exact absurd (heq ▸ hknown) (by decide)
      · exact absurd (heq ▸ hknown) (by decide)
    simp [hnone]

end Circle

-- Three implementations that beat one another in a circle: the order of the registry
-- picks the winner.
theorem circle_winner_depends_on_order :
    (Circle.resolver [Circle.generalImpl, Circle.nestedImpl, Circle.flatImpl]).registry.entries.Perm
        (Circle.resolver [Circle.flatImpl, Circle.nestedImpl,
          Circle.generalImpl]).registry.entries ∧
      (Circle.resolver [Circle.generalImpl, Circle.nestedImpl, Circle.flatImpl]).resolve
          Circle.subject "Show" [] = .resolved (Circle.flat.resolution Circle.goal) ∧
      (Circle.resolver [Circle.flatImpl, Circle.nestedImpl, Circle.generalImpl]).resolve
          Circle.subject "Show" [] = .resolved (Circle.general.resolution Circle.goal) ∧
      ¬ (Outcome.resolved (Circle.flat.resolution Circle.goal)).Agrees
        (.resolved (Circle.general.resolution Circle.goal)) := by
  refine ⟨by decide +kernel, by decide +kernel, by decide +kernel, ?_⟩
  show ¬ Circle.flat.resolution Circle.goal = Circle.general.resolution Circle.goal
  decide +kernel

-- Two of the three have a leader, so that no order of them matters.
theorem two_of_circle_order_irrelevant :
    (Circle.resolver [Circle.generalImpl, Circle.nestedImpl]).resolve Circle.subject "Show" [] =
        .resolved (Circle.general.resolution Circle.goal) ∧
      ∀ entries,
        (Circle.resolver [Circle.generalImpl, Circle.nestedImpl]).registry.entries.Perm entries →
        (Outcome.resolved (Circle.general.resolution Circle.goal)).Agrees
          (((Circle.resolver [Circle.generalImpl, Circle.nestedImpl]).reorder entries).resolve
            Circle.subject "Show" []) := by
  have hresolved : (Circle.resolver [Circle.generalImpl, Circle.nestedImpl]).resolve
      Circle.subject "Show" [] = .resolved (Circle.general.resolution Circle.goal) := by
    decide +kernel
  refine ⟨hresolved, ?_⟩
  rw [← hresolved]
  exact (resolve_order_irrelevant_iff _ _ _ _).2 fun contest _ =>
    Resolver.decisive_of_two_candidates Circle.candidates_length_le contest

end Conformance
