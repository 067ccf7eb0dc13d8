import Conformance.Resolution
import Conformance.Proofs.SelectionOrder

namespace Conformance

-- What each function of the resolver finds, as facts that later proofs use without
-- opening the functions again.

def Survivor.resolution (survivor : Survivor) (goal : Goal) : Resolution where
  interface := goal.interface
  label := survivor.label goal.subject
  substitution := survivor.substitution
  score := survivor.score
  isBuiltin := survivor.impl.isBuiltin

namespace Ty

mutual
-- The types through which a type may implement an interface: the type itself, what a
-- nullable type holds, and the members of a union without a name.
def parts : Ty → List Ty
  | .nullable inner => .nullable inner :: inner.parts
  | .anyOf members => .anyOf members :: allParts members
  | t => [t]
def allParts : List Ty → List Ty
  | [] => []
  | t :: ts => t.parts ++ allParts ts
end

-- Whether only the type itself can be asked whether it implements an interface.
def isPlain : Ty → Bool
  | .unknown => false
  | .param _ => false
  | .nullable _ => false
  | .anyOf _ => false
  | _ => true

end Ty

theorem implementsBy_of_isPlain (resolve : Ty → Outcome) (interface : String) (args : List Ty)
    {t : Ty} (h : t.isPlain = true) :
    implementsBy resolve interface args t =
      match t.asInterface? with
      | some (name, ownArgs) =>
          if name = interface ∧ argsCompatible ownArgs args then
            .resolved (.trivial t interface)
          else resolve t
      | none => resolve t := by
  cases t with
  | unknown | param _ | nullable _ | anyOf _ => simp [Ty.isPlain] at h
  | _ => rfl

section Congruence

variable {resolve resolve' : Ty → Outcome} {interface : String} {args : List Ty}

theorem implementsBy_isResolved_plain {t : Ty} (hplain : t.isPlain = true)
    (h : (resolve t).isResolved = (resolve' t).isResolved) :
    (implementsBy resolve interface args t).isResolved =
      (implementsBy resolve' interface args t).isResolved := by
  rw [implementsBy_of_isPlain resolve _ _ hplain, implementsBy_of_isPlain resolve' _ _ hplain]
  split
  · split
    · rfl
    · exact h
  · exact h

theorem implementsBy_isResolved_nullable (inner : Ty) :
    (implementsBy resolve interface args (.nullable inner)).isResolved =
      ((resolve (.nullable inner)).isResolved ||
        (implementsBy resolve interface args inner).isResolved) := by
  simp only [implementsBy]
  cases hdirect : (resolve (.nullable inner)).isResolved <;>
    cases hthrough : (implementsBy resolve interface args inner).isResolved <;>
    simp [hdirect, hthrough]
  split <;> assumption

theorem firstFailing_not_isResolved {members : List Ty} {outcome : Outcome}
    (h : firstFailing resolve interface args members = some outcome) :
    outcome.isResolved = false := by
  induction members with
  | nil => simp [firstFailing] at h
  | cons member members ih =>
      simp only [firstFailing] at h
      split at h
      · exact ih h
      · rename_i hfails
        obtain rfl : implementsBy resolve interface args member = outcome := by simpa using h
        simpa using hfails

theorem implementsBy_isResolved_anyOf (members : List Ty) :
    (implementsBy resolve interface args (.anyOf members)).isResolved =
      ((resolve (.anyOf members)).isResolved ||
        (firstFailing resolve interface args members).isNone) := by
  simp only [implementsBy]
  cases hdirect : (resolve (.anyOf members)).isResolved
  · cases hfirst : firstFailing resolve interface args members with
    | none => simp [Outcome.isResolved]
    | some outcome =>
        have hfails := firstFailing_not_isResolved hfirst
        simp only [Bool.false_eq_true, if_false, Option.isNone_some, Bool.or_self]
        split <;> assumption
  · simp [hdirect]

theorem firstFailing_isNone_cons (member : Ty) (members : List Ty) :
    (firstFailing resolve interface args (member :: members)).isNone =
      ((implementsBy resolve interface args member).isResolved &&
        (firstFailing resolve interface args members).isNone) := by
  simp only [firstFailing]
  cases (implementsBy resolve interface args member).isResolved <;> simp

mutual
-- Whether a type implements an interface depends on which of its parts do.
theorem implementsBy_isResolved_congr : (t : Ty) →
    (∀ part ∈ t.parts, (resolve part).isResolved = (resolve' part).isResolved) →
    (implementsBy resolve interface args t).isResolved =
      (implementsBy resolve' interface args t).isResolved
  | .unknown, _ => rfl
  | .param _, _ => rfl
  | .nullable inner, h => by
      have hself := h (.nullable inner) (by simp [Ty.parts])
      have hinner := implementsBy_isResolved_congr inner fun part hpart =>
        h part (by simp [Ty.parts, hpart])
      rw [implementsBy_isResolved_nullable, implementsBy_isResolved_nullable, hself, hinner]
  | .anyOf members, h => by
      have hself := h (.anyOf members) (by simp [Ty.parts])
      have hmembers := firstFailing_isNone_congr members fun part hpart =>
        h part (by simp [Ty.parts, hpart])
      rw [implementsBy_isResolved_anyOf, implementsBy_isResolved_anyOf, hself, hmembers]
  | .scalar _, h => implementsBy_isResolved_plain rfl (h _ (by simp [Ty.parts]))
  | .declared _ _ _, h => implementsBy_isResolved_plain rfl (h _ (by simp [Ty.parts]))
  | .inst _ _, h => implementsBy_isResolved_plain rfl (h _ (by simp [Ty.parts]))
  | .alias _ _, h => implementsBy_isResolved_plain rfl (h _ (by simp [Ty.parts]))
  | .applied _ _, h => implementsBy_isResolved_plain rfl (h _ (by simp [Ty.parts]))
  | .function _, h => implementsBy_isResolved_plain rfl (h _ (by simp [Ty.parts]))
  | .overload _, h => implementsBy_isResolved_plain rfl (h _ (by simp [Ty.parts]))
  | .unary _ _, h => implementsBy_isResolved_plain rfl (h _ (by simp [Ty.parts]))
  | .map _ _, h => implementsBy_isResolved_plain rfl (h _ (by simp [Ty.parts]))
theorem firstFailing_isNone_congr : (ts : List Ty) →
    (∀ part ∈ Ty.allParts ts, (resolve part).isResolved = (resolve' part).isResolved) →
    (firstFailing resolve interface args ts).isNone =
      (firstFailing resolve' interface args ts).isNone
  | [], _ => rfl
  | t :: ts, h => by
      have hfirst := implementsBy_isResolved_congr t fun part hpart =>
        h part (by simp [Ty.allParts, hpart])
      have hrest := firstFailing_isNone_congr ts fun part hpart =>
        h part (by simp [Ty.allParts, hpart])
      rw [firstFailing_isNone_cons, firstFailing_isNone_cons, hfirst, hrest]
end

end Congruence

namespace Resolver

instance (r : Resolver) : Std.OrientedCmp r.compare :=
  ⟨Survivor.compare_swap r.options.preferUser _ _⟩

-- The survivors of a goal, with so many levels left for it and the goals nested in it.
def survivors (r : Resolver) (room : Nat) (goals : List Goal) (goal : Goal) : List Survivor :=
  match r.explorer room with
  | none => []
  | some explorer => (explorer goal goals).filterMap Assessment.survivor?

@[simp] theorem survivors_zero (r : Resolver) (goals : List Goal) (goal : Goal) :
    r.survivors 0 goals goal = [] := rfl

theorem survivors_succ (r : Resolver) (room : Nat) (goals : List Goal) (goal : Goal) :
    r.survivors (room + 1) goals goal =
      (r.registry.candidates (servingInterfaces goal.interface)).filterMap fun impl =>
        (r.assess (r.explorer room) (goal :: goals) goal impl).survivor? := by
  simp only [survivors, explorer, List.filterMap_map]
  rfl

def select (r : Resolver) (survivors : List Survivor) : Option (Choice Survivor) :=
  Conformance.select r.compare (fun survivor => survivor.impl.interfaceName) survivors

def outcome (goal : Goal) (detail : String) : Option (Choice Survivor) → Outcome
  | none => .unsatisfied ⟨goal.subject.render, interfaceLabel goal.interface goal.args, detail⟩
  | some (.winner survivor) => .resolved (survivor.resolution goal)
  | some (.tied survivors) =>
      .ambiguous ⟨goal.interface, goal.subject.render,
        labelSet (survivors.map fun survivor => survivor.label goal.subject)⟩

theorem outcome_isResolved (goal : Goal) (detail : String) (choice : Option (Choice Survivor)) :
    (outcome goal detail choice).isResolved =
      match choice with
      | some (.winner _) => true
      | _ => false := by
  rcases choice with _ | _ | _ <;> rfl

theorem conclude_eq (r : Resolver) (goal : Goal) (assessments : List Assessment) :
    r.conclude goal assessments =
      outcome goal (Assessment.bestDetail assessments)
        (r.select (assessments.filterMap Assessment.survivor?)) := by
  unfold conclude
  cases assessments.filterMap Assessment.survivor? with
  | nil => rfl
  | cons first rest =>
      simp only [select, Conformance.select]
      cases choose r.compare (fun survivor => survivor.impl.interfaceName) first rest <;> rfl

-- A goal is not opened if it is open already or if there is no room for it.
def refuses (room : Nat) (goals : List Goal) (goal : Goal) : Bool :=
  (goals.any fun opened => opened.key = goal.key) || room == 0

theorem explore_refused (r : Resolver) {room : Nat} {goals : List Goal} {goal : Goal}
    (h : refuses room goals goal = true) :
    ∃ fault, r.explore (r.explorer room) goals goal = .error fault := by
  unfold explore
  by_cases hcycle : (goals.any fun opened => opened.key = goal.key) = true
  · simp only [hcycle, if_true]
    exact ⟨_, rfl⟩
  · obtain rfl : room = 0 := by simpa [refuses, hcycle] using h
    simp only [hcycle, Bool.false_eq_true, if_false]
    exact ⟨_, rfl⟩

theorem explore_opened (r : Resolver) {room : Nat} {goals : List Goal} {goal : Goal}
    (h : refuses room goals goal = false) :
    ∃ assessments, r.explore (r.explorer room) goals goal = .ok assessments ∧
      assessments.filterMap Assessment.survivor? = r.survivors room goals goal := by
  simp only [refuses, Bool.or_eq_false_iff, beq_eq_false_iff_ne] at h
  obtain ⟨hcycle, hroom⟩ := h
  obtain ⟨room, rfl⟩ := Nat.exists_eq_succ_of_ne_zero hroom
  unfold explore
  simp only [hcycle, Bool.false_eq_true, if_false]
  exact ⟨_, rfl, rfl⟩

theorem resolveIn_refused (r : Resolver) {room : Nat} {goals : List Goal} {subject : Ty}
    {interface : String} {args : List Ty}
    (h : refuses room goals (Goal.lookup subject interface args) = true) :
    ∃ detail, r.resolveIn (r.explorer room) goals subject interface args =
      .unsatisfied ⟨subject.render, interfaceLabel interface args, detail⟩ := by
  obtain ⟨fault, hfault⟩ := r.explore_refused h
  refine ⟨fault.message, ?_⟩
  simp only [resolveIn, hfault]

theorem resolveIn_opened (r : Resolver) {room : Nat} {goals : List Goal} {subject : Ty}
    {interface : String} {args : List Ty}
    (h : refuses room goals (Goal.lookup subject interface args) = false) :
    ∃ detail, r.resolveIn (r.explorer room) goals subject interface args =
      outcome (Goal.lookup subject interface args) detail
        (r.select (r.survivors room goals (Goal.lookup subject interface args))) := by
  obtain ⟨assessments, hok, hsurvivors⟩ := r.explore_opened h
  refine ⟨Assessment.bestDetail assessments, ?_⟩
  simp only [resolveIn, hok]
  rw [conclude_eq, hsurvivors]

-- A survivor of the target of a blanket implementation, with the match of its arguments.
def fit? (targetArgs : List Ty) (generics : List (TypeParam Ty)) (survivor : Survivor) :
    Option (Survivor × Match) :=
  (Ty.matchArgs survivor.args targetArgs generics).map fun found => (survivor, found)

-- The match of a blanket implementation is that of the winner, if there is one.
def matchOfChoice : Option (Choice (Survivor × Match)) → Option Match
  | some (.winner candidate) => some candidate.2
  | _ => none

def bestFit (r : Resolver) (targetArgs : List Ty) (generics : List (TypeParam Ty))
    (assessments : List Assessment) : Option Match :=
  matchOfChoice (Conformance.select (fun a b => r.compare a.1 b.1)
    (fun a => a.1.impl.interfaceName)
    ((assessments.filterMap Assessment.survivor?).filterMap (fit? targetArgs generics)))

theorem matchInterface_eq (r : Resolver) (below : Option Explorer) (goals : List Goal)
    (subject : Ty) (interface : String) (targetArgs : List Ty) (generics : List (TypeParam Ty)) :
    r.matchInterface below goals subject interface targetArgs generics =
      match r.explore below goals (Goal.target subject interface) with
      | .error _ => none
      | .ok assessments => r.bestFit targetArgs generics assessments := by
  unfold matchInterface bestFit fit?
  cases r.explore below goals (Goal.target subject interface) with
  | error fault => rfl
  | ok assessments =>
      dsimp only
      cases (assessments.filterMap Assessment.survivor?).filterMap fun survivor =>
          (Ty.matchArgs survivor.args targetArgs generics).map fun found => (survivor, found) with
      | nil => rfl
      | cons first rest =>
          simp only [Conformance.select]
          cases choose (fun a b => r.compare a.1 b.1) (fun a => a.1.impl.interfaceName)
              first rest with
          | winner candidate => rfl
          | tied candidates => rfl

theorem matchInterface_refused (r : Resolver) {room : Nat} {goals : List Goal} {subject : Ty}
    {interface : String} (targetArgs : List Ty) (generics : List (TypeParam Ty))
    (h : refuses room goals (Goal.target subject interface) = true) :
    r.matchInterface (r.explorer room) goals subject interface targetArgs generics = none := by
  obtain ⟨fault, hfault⟩ := r.explore_refused h
  rw [matchInterface_eq, hfault]

theorem matchInterface_opened (r : Resolver) {room : Nat} {goals : List Goal} {subject : Ty}
    {interface : String} (targetArgs : List Ty) (generics : List (TypeParam Ty))
    (h : refuses room goals (Goal.target subject interface) = false) :
    r.matchInterface (r.explorer room) goals subject interface targetArgs generics =
      matchOfChoice (Conformance.select (fun a b => r.compare a.1 b.1)
        (fun a => a.1.impl.interfaceName)
        ((r.survivors room goals (Goal.target subject interface)).filterMap
          (fit? targetArgs generics))) := by
  obtain ⟨assessments, hok, hsurvivors⟩ := r.explore_opened h
  rw [matchInterface_eq, hok, ← hsurvivors]
  rfl

-- An obligation holds if its constraint names an interface that takes its arguments, and
-- its subject is still open or implements that interface.
def Holds (r : Resolver) (below : Option Explorer) (goals : List Goal) (obligation : Obligation) :
    Prop :=
  ∃ interface, r.env.checkedInterface obligation.constraint = .ok interface ∧
    (obligation.subject.isUnknown ∨ obligation.subject.isParam ∨
      (r.implementsIn below goals obligation.subject interface.name interface.args).isResolved)

theorem obligationFault?_eq_none_iff (r : Resolver) (below : Option Explorer)
    (goals : List Goal) (obligation : Obligation) :
    r.obligationFault? below goals obligation = none ↔ r.Holds below goals obligation := by
  unfold obligationFault? Holds
  cases r.env.checkedInterface obligation.constraint with
  | error fault => simp
  | ok interface =>
      cases obligation.subject.isUnknown <;> cases obligation.subject.isParam <;> simp

theorem firstFailure?_eq_none_iff (r : Resolver) (below : Option Explorer) (goals : List Goal)
    (obligations : List Obligation) :
    r.firstFailure? below goals obligations = none ↔
      ∀ obligation ∈ obligations, r.Holds below goals obligation := by
  simp only [firstFailure?, List.findSome?_eq_none_iff, Option.map_eq_none_iff,
    obligationFault?_eq_none_iff]

-- A candidate survives if its target matches the subject, its arguments agree with those
-- asked for, and its obligations hold.
theorem assess_survivor?_eq_some_iff (r : Resolver) (below : Option Explorer) (goals : List Goal)
    (goal : Goal) (impl : Implementation) (survivor : Survivor) :
    (r.assess below goals goal impl).survivor? = some survivor ↔
      ∃ found, r.matchTargetIn below goals goal.subject impl.target impl.generics = some found ∧
        survivor.impl = impl ∧
        survivor.substitution = Substitution.complete found.substitution r.env impl goal.subject ∧
        survivor.args = impl.args.map (Ty.substitute · survivor.substitution) ∧
        survivor.score = found.score ∧
        argsCompatible survivor.args goal.args = true ∧
        ∀ obligation ∈ impl.obligations,
          r.Holds below goals (obligation.substitute survivor.substitution) := by
  unfold assess
  cases r.matchTargetIn below goals goal.subject impl.target impl.generics with
  | none => simp [Assessment.survivor?]
  | some found =>
      simp only [Option.some.injEq, exists_eq_left']
      split
      · rename_i hincompatible
        simp only [Assessment.survivor?, reduceCtorEq, false_iff]
        rintro ⟨-, hs, hargs, -, hcompatible, -⟩
        rw [hargs, hs] at hcompatible
        simp [hcompatible] at hincompatible
      · rename_i hcompatible
        split
        · rename_i failure hfailure
          simp only [Assessment.survivor?, reduceCtorEq, false_iff]
          rintro ⟨-, hs, -, -, -, hholds⟩
          have hnone := (r.firstFailure?_eq_none_iff below goals
            (impl.obligations.map (Obligation.substitute ·
              (Substitution.complete found.substitution r.env impl goal.subject)))).mpr
            (by simpa [hs] using hholds)
          simp [hnone] at hfailure
        · rename_i hnone
          have hholds := (r.firstFailure?_eq_none_iff below goals _).mp hnone
          simp only [List.mem_map, forall_exists_index, and_imp, forall_apply_eq_imp_iff₂] at hholds
          simp only [Assessment.survivor?, Option.some.injEq]
          constructor
          · rintro rfl
            exact ⟨rfl, rfl, rfl, rfl, by simpa using hcompatible, hholds⟩
          · rintro ⟨himpl, hs, hargs, hscore, -, -⟩
            obtain ⟨_, _, _, _⟩ := survivor
            simp_all

theorem mem_survivors {r : Resolver} {room : Nat} {goals : List Goal} {goal : Goal}
    {survivor : Survivor} (h : survivor ∈ r.survivors room goals goal) :
    survivor.impl ∈ r.registry.candidates (servingInterfaces goal.interface) ∧
      (r.assess (r.explorer (room - 1)) (goal :: goals) goal survivor.impl).survivor? =
        some survivor := by
  cases room with
  | zero => simp at h
  | succ room =>
      rw [survivors_succ] at h
      obtain ⟨impl, himpl, hsome⟩ := List.mem_filterMap.mp h
      obtain ⟨_, _, rfl, _⟩ := (r.assess_survivor?_eq_some_iff _ _ _ _ _).mp hsome
      exact ⟨himpl, hsome⟩

theorem select_winner_mem {r : Resolver} {survivors : List Survivor} {winner : Survivor}
    (h : r.select survivors = some (.winner winner)) : winner ∈ survivors :=
  mem_of_select_winner h

-- A lookup that resolves was opened, and its resolution is that of a survivor.
theorem resolveIn_eq_resolved {r : Resolver} {room : Nat} {goals : List Goal} {subject : Ty}
    {interface : String} {args : List Ty} {resolution : Resolution}
    (h : r.resolveIn (r.explorer room) goals subject interface args = .resolved resolution) :
    ∃ survivor ∈ r.survivors room goals (Goal.lookup subject interface args),
      resolution = survivor.resolution (Goal.lookup subject interface args) := by
  cases hrefuses : refuses room goals (Goal.lookup subject interface args) with
  | true =>
      obtain ⟨detail, hrefused⟩ := r.resolveIn_refused hrefuses
      simp [hrefused] at h
  | false =>
      obtain ⟨detail, hopened⟩ := r.resolveIn_opened hrefuses
      rw [hopened] at h
      cases hselect : r.select (r.survivors room goals (Goal.lookup subject interface args)) with
      | none => simp [hselect, outcome] at h
      | some choice =>
          cases choice with
          | winner survivor =>
              refine ⟨survivor, select_winner_mem hselect, ?_⟩
              simpa [hselect, outcome] using h.symm
          | tied survivors => simp [hselect, outcome] at h

end Resolver

-- Besides its own implementations an interface is served by those of the one preferred
-- to it.
theorem mem_servingInterfaces {name interface : String} :
    name ∈ servingInterfaces interface ↔ name = interface ∨
      interface = "PartialEq" ∧ name = "Eq" ∨ interface = "PartialOrd" ∧ name = "Ord" := by
  simp only [servingInterfaces, priorityPairs, List.mem_cons, List.mem_map, List.mem_filter,
    List.not_mem_nil, or_false, decide_eq_true_eq]
  constructor
  · rintro (rfl | ⟨_, ⟨rfl | rfl, rfl⟩, rfl⟩)
    · exact .inl rfl
    · exact .inr (.inl ⟨rfl, rfl⟩)
    · exact .inr (.inr ⟨rfl, rfl⟩)
  · rintro (rfl | ⟨rfl, rfl⟩ | ⟨rfl, rfl⟩)
    · exact .inl rfl
    · exact .inr ⟨("Eq", "PartialEq"), ⟨.inl rfl, rfl⟩, rfl⟩
    · exact .inr ⟨("Ord", "PartialOrd"), ⟨.inr rfl, rfl⟩, rfl⟩

theorem Registry.mem_candidates {registry : Registry} {interfaces : List String}
    {impl : Implementation} :
    impl ∈ registry.candidates interfaces ↔
      impl ∈ registry.entries ∧ impl.name = none ∧ impl.interfaceName ∈ interfaces := by
  simp [candidates]

end Conformance
