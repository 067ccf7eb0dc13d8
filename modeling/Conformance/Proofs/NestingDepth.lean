import Conformance.Proofs.BlanketTargets
import Conformance.Proofs.Completion
import Conformance.Proofs.Instantiation

namespace Conformance

-- An interface that a struct passes on from its argument is looked for in one goal for each
-- struct and one for what is innermost. So many goals must be allowed, and no more.

namespace Ty

-- The two ways to write a struct with one argument.
inductive Wraps (wrapper : String) (inner : Ty) : Ty → Prop where
  | applied (params : List String) :
      Wraps wrapper inner (.applied (.declared .struct wrapper params) [inner])
  | inst : Wraps wrapper inner (.inst wrapper [inner])

-- A struct that is applied so many times to an integer.
inductive Nested (wrapper : String) : Nat → Ty → Prop where
  | core : Nested wrapper 0 i32
  | wrap {n : Nat} {inner outer : Ty} (h : Nested wrapper n inner)
      (houter : Wraps wrapper inner outer) : Nested wrapper (n + 1) outer

namespace Wraps

variable {wrapper : String} {inner outer : Ty}

theorem resolveAlias (h : Wraps wrapper inner outer) : outer.resolveAlias = outer := by
  cases h <;> rfl

theorem nominal? (h : Wraps wrapper inner outer) :
    outer.nominal? = some ⟨wrapper, .declared .struct, [inner], false⟩ := by
  cases h <;> rfl

theorem isPlain (h : Wraps wrapper inner outer) : outer.isPlain = true := by
  cases h <;> rfl

theorem asInterface? (h : Wraps wrapper inner outer) : outer.asInterface? = none := by
  cases h <;> rfl

-- Each struct makes the text of the type longer.
theorem length_render_lt (h : Wraps wrapper inner outer) :
    inner.render.length < outer.render.length := by
  have htext : outer.render = wrapper ++ " " ++ inner.render := by cases h <;> rfl
  have hblank : " ".length = 1 := rfl
  rw [htext, String.length_append, String.length_append]
  omega

-- A target matches what is written in either way, and its parameter is the argument.
theorem unify {name : String} {target : Ty} (htarget : Wraps wrapper (.param name) target)
    (h : Wraps wrapper inner outer) (hknown : inner.isUnknown = false) :
    Ty.unify target outer ∅ = some ⟨Bindings.insert ∅ name inner, 1⟩ := by
  have hunknown : outer.resolveAlias.isUnknown = false := by
    rw [h.resolveAlias]
    cases h <;> rfl
  have harg : Ty.unify (.param name) inner ∅ = some ⟨Bindings.insert ∅ name inner, 0⟩ := by
    rw [Ty.unify, hknown, if_neg Bool.false_ne_true]
    rfl
  cases htarget with
  | applied params =>
      rw [unify_applied rfl, matchNominal, hunknown, h.nominal?]
      simp [Ty.nominal?, Nominal.sameHead, matchArguments, unifyAll, harg, Match.addScore]
  | inst =>
      rw [unify_inst, matchNominal, hunknown, h.nominal?]
      simp [matchArguments, unifyAll, harg, Match.addScore]

theorem unify_core {name : String} {target : Ty} (htarget : Wraps wrapper (.param name) target)
    (s : Substitution) : Ty.unify target i32 s = none := by
  cases htarget with
  | applied params => rw [unify_applied rfl, matchNominal]; rfl
  | inst => rw [unify_inst, matchNominal]; rfl

end Wraps

namespace Nested

variable {wrapper : String} {n : Nat} {t : Ty}

theorem isPlain (h : Nested wrapper n t) : t.isPlain = true := by
  cases h with
  | core => rfl
  | wrap _ houter => exact houter.isPlain

theorem asInterface? (h : Nested wrapper n t) : t.asInterface? = none := by
  cases h with
  | core => rfl
  | wrap _ houter => exact houter.asInterface?

theorem isUnknown (h : Nested wrapper n t) : t.isUnknown = false := by
  cases h with
  | core => rfl
  | wrap _ houter => cases houter <;> rfl

theorem isParam (h : Nested wrapper n t) : t.isParam = false := by
  cases h with
  | core => rfl
  | wrap _ houter => cases houter <;> rfl

end Nested

end Ty

-- An implementation for integers that asks for nothing.
structure Implementation.ServesCore (impl : Implementation) (decl : InterfaceDecl) : Prop where
  unnamed : impl.name = none
  interface : impl.interface = decl
  target : impl.target = .i32
  obligations : impl.obligations = []

-- An implementation for a struct with one argument, which has to implement the interface too.
structure Implementation.PassesOn (impl : Implementation) (decl : InterfaceDecl)
    (wrapper param : String) : Prop where
  unnamed : impl.name = none
  interface : impl.interface = decl
  target : Ty.Wraps wrapper (.param param) impl.target
  obligations : ∃ obligation, impl.obligations = [obligation] ∧
    obligation.subject = .param param ∧ obligation.constraint = decl.toTy

-- There is an implementation for integers and one for the struct, and there are no others.
-- The parameter is not `Self`, which stands for the struct itself.
structure Resolver.Nests (r : Resolver) (decl : InterfaceDecl) (wrapper param : String) :
    Prop where
  declared : r.env.lookup? decl.name = some (.interface decl)
  plain : decl.generics = []
  param_ne : param ≠ "Self"
  entries : ∃ core outer, r.registry.entries.Perm [core, outer] ∧
    core.ServesCore decl ∧ outer.PassesOn decl wrapper param

namespace Resolver

variable {r : Resolver} {decl : InterfaceDecl} {wrapper param : String} {below : Option Explorer}
  {goals : List Goal} {impl : Implementation}

theorem checkedInterface_toTy (hdeclared : r.env.lookup? decl.name = some (.interface decl))
    (hplain : decl.generics = []) :
    r.env.checkedInterface decl.toTy = .ok ⟨decl.name, 0, []⟩ := by
  simp [Environment.checkedInterface, Environment.constraintInterface, InterfaceDecl.toTy,
    Ty.resolveAlias, Environment.namedInterface, hdeclared, hplain, ConstraintInterface.fault?]

theorem assess_core_core (himpl : impl.ServesCore decl) :
    (r.assess below goals (Goal.lookup .i32 decl.name []) impl).survivor?.isSome = true := by
  rw [assess_isSome_iff rfl himpl.obligations, matchTargetIn, himpl.target]
  rfl

theorem assess_core_wraps (himpl : impl.ServesCore decl) {inner outer : Ty}
    (h : Ty.Wraps wrapper inner outer) :
    (r.assess below goals (Goal.lookup outer decl.name []) impl).survivor? = none := by
  have hmatch : r.matchTargetIn below goals outer impl.target impl.generics = none := by
    rw [matchTargetIn, himpl.target]
    cases h <;> rfl
  rw [assess, show (Goal.lookup outer decl.name []).subject = outer from rfl, hmatch]
  rfl

theorem assess_outer_core (himpl : impl.PassesOn decl wrapper param) :
    (r.assess below goals (Goal.lookup .i32 decl.name []) impl).survivor? = none := by
  have hmatch : r.matchTargetIn below goals .i32 impl.target impl.generics = none := by
    rw [matchTargetIn, himpl.target.asInterface?]
    simp [Ty.matchType, himpl.target.unify_core]
  rw [assess, show (Goal.lookup .i32 decl.name []).subject = .i32 from rfl, hmatch]
  rfl

-- Where the target matches and no arguments are asked for, the obligations decide.
theorem assess_isSome_iff_holds {goal : Goal} {found : Match} (hargs : goal.args = [])
    (hmatch : r.matchTargetIn below goals goal.subject impl.target impl.generics = some found) :
    (r.assess below goals goal impl).survivor?.isSome = true ↔
      ∀ obligation ∈ impl.obligations, r.Holds below goals (obligation.substitute
        (Substitution.complete found.substitution r.env impl goal.subject)) := by
  rw [Option.isSome_iff_exists]
  constructor
  · rintro ⟨survivor, hsurvivor⟩
    obtain ⟨_, hmatch', -, hs, -, -, -, hall⟩ :=
      (r.assess_survivor?_eq_some_iff _ _ _ _ _).mp hsurvivor
    obtain rfl : found = _ := Option.some.inj (hmatch.symm.trans hmatch')
    rw [← hs]
    exact hall
  · intro hall
    refine ⟨⟨impl, Substitution.complete found.substitution r.env impl goal.subject,
      impl.args.map (Ty.substitute · (Substitution.complete found.substitution r.env impl
        goal.subject)), found.score⟩, ?_⟩
    rw [assess_survivor?_eq_some_iff]
    exact ⟨found, hmatch, rfl, rfl, rfl, rfl, by simp [argsCompatible, hargs], hall⟩

-- The obligation of the struct is that its argument is found, inside the goal of the struct.
theorem assess_outer_wraps (himpl : impl.PassesOn decl wrapper param)
    (hdeclared : r.env.lookup? decl.name = some (.interface decl)) (hplain : decl.generics = [])
    (hparam : param ≠ "Self") {n : Nat} {inner outer : Ty} (hinner : Ty.Nested wrapper n inner)
    (houter : Ty.Wraps wrapper inner outer) :
    (r.assess below goals (Goal.lookup outer decl.name []) impl).survivor?.isSome = true ↔
      (r.resolveIn below goals inner decl.name []).isResolved = true := by
  obtain ⟨obligation, hobligations, hsubject, hconstraint⟩ := himpl.obligations
  obtain ⟨found, hmatch, hfound⟩ : ∃ found, r.matchTargetIn below goals outer impl.target
      impl.generics = some found ∧ found.substitution.get? param = some inner := by
    rw [matchTargetIn, himpl.target.asInterface?, Ty.matchType,
      himpl.target.unify houter hinner.isUnknown]
    exact ⟨_, rfl, Substitution.keeps_close _ _ _ _ (by simp)⟩
  rw [assess_isSome_iff_holds rfl hmatch, hobligations, List.forall_mem_singleton]
  set s := Substitution.complete found.substitution r.env impl outer with hs
  have hget : s.get? param = some inner := by
    refine Substitution.get?_complete_found _ _ _ _ hfound hparam (fun h => ?_) fun h => ?_
    · simpa [h, Ty.isUnknown] using hinner.isUnknown
    · simpa [h, Ty.isParam] using hinner.isParam
  have hsome : s.isEmpty = false := Bindings.isEmpty_eq_false (by rw [hget]; rfl)
  have hto : (obligation.substitute s).subject = inner := by
    simp [Obligation.substitute, hsubject, Ty.substitute, hsome, Ty.instantiate, hget]
  have hfor : (obligation.substitute s).constraint = decl.toTy := by
    simp [Obligation.substitute, hconstraint, Ty.substitute, InterfaceDecl.toTy, Ty.instantiate]
  show r.Holds below goals (obligation.substitute s) ↔ _
  rw [Holds, hto, hfor, checkedInterface_toTy hdeclared hplain]
  simp [hinner.isUnknown, hinner.isParam, implementsIn,
    implementsBy_of_isPlain _ _ _ hinner.isPlain, hinner.asInterface?]

-- Both implementations are candidates, in whatever order they were registered.
theorem survivors_perm {core outer : Implementation} (hperm : r.registry.entries.Perm [core, outer])
    (hcore : core.ServesCore decl) (houter : outer.PassesOn decl wrapper param) (room : Nat)
    (goals : List Goal) {goal : Goal} (hgoal : goal.interface = decl.name) :
    (r.survivors (room + 1) goals goal).Perm ([core, outer].filterMap fun impl =>
      (r.assess (r.explorer room) (goal :: goals) goal impl).survivor?) := by
  have hcandidates : r.registry.candidates (servingInterfaces goal.interface) =
      r.registry.entries := by
    refine List.filter_eq_self.mpr fun impl himpl => ?_
    have hmem := hperm.mem_iff.mp himpl
    simp only [List.mem_cons, List.not_mem_nil, or_false] at hmem
    rcases hmem with rfl | rfl
    · simp [hcore.unnamed, Implementation.interfaceName, hcore.interface, hgoal,
        servingInterfaces]
    · simp [houter.unnamed, Implementation.interfaceName, houter.interface, hgoal,
        servingInterfaces]
  rw [survivors_succ, hcandidates]
  exact hperm.filterMap _

theorem survivors_core (h : r.Nests decl wrapper param) (room : Nat) (goals : List Goal) :
    ∃ survivor, r.survivors (room + 1) goals (Goal.lookup .i32 decl.name []) = [survivor] := by
  obtain ⟨core, outer, hperm, hcore, houter⟩ := h.entries
  have hassess : (r.assess (r.explorer room) (Goal.lookup .i32 decl.name [] :: goals)
      (Goal.lookup .i32 decl.name []) core).survivor?.isSome = true := assess_core_core hcore
  obtain ⟨survivor, hsurvivor⟩ := Option.isSome_iff_exists.mp hassess
  have hall := survivors_perm hperm hcore houter room goals
    (show (Goal.lookup .i32 decl.name []).interface = decl.name from rfl)
  simp only [List.filterMap_cons, hsurvivor, assess_outer_core houter, List.filterMap_nil] at hall
  exact ⟨survivor, List.perm_singleton.mp hall⟩

-- What is wrapped is found if and only if what is inside is, one level further down.
theorem survivors_wraps (h : r.Nests decl wrapper param) (room : Nat) (goals : List Goal)
    {n : Nat} {inner outer : Ty} (hinner : Ty.Nested wrapper n inner)
    (houter : Ty.Wraps wrapper inner outer) :
    if (r.resolveIn (r.explorer room) (Goal.lookup outer decl.name [] :: goals) inner decl.name
        []).isResolved then
      ∃ survivor, r.survivors (room + 1) goals (Goal.lookup outer decl.name []) = [survivor]
    else r.survivors (room + 1) goals (Goal.lookup outer decl.name []) = [] := by
  obtain ⟨core, passing, hperm, hcore, hpassing⟩ := h.entries
  have hassess : (r.assess (r.explorer room) (Goal.lookup outer decl.name [] :: goals)
      (Goal.lookup outer decl.name []) passing).survivor?.isSome = true ↔ _ :=
    assess_outer_wraps hpassing h.declared h.plain h.param_ne hinner houter
  have hall := survivors_perm hperm hcore hpassing room goals
    (show (Goal.lookup outer decl.name []).interface = decl.name from rfl)
  rw [List.filterMap_cons, assess_core_wraps hcore houter] at hall
  split
  · rename_i hresolved
    obtain ⟨survivor, hsurvivor⟩ := Option.isSome_iff_exists.mp (hassess.mpr hresolved)
    simp only [List.filterMap_cons, hsurvivor, List.filterMap_nil] at hall
    exact ⟨survivor, List.perm_singleton.mp hall⟩
  · rename_i hresolved
    have hnone := Option.not_isSome_iff_eq_none.mp fun hsome => hresolved (hassess.mp hsome)
    simp only [List.filterMap_cons, hnone, List.filterMap_nil] at hall
    exact List.perm_nil.mp hall

theorem length_key_lookup (t : Ty) (interface : String) :
    (Goal.lookup t interface []).key.length = t.render.length + (": " ++ interface).length := by
  show (t.render ++ ": " ++ interface).length = _
  rw [String.append_assoc, String.length_append]

-- A lookup inside goals with longer texts is none of them, and so it wants only for room.
theorem resolveIn_shortest {t : Ty} {interface : String} {goals : List Goal}
    (hgoals : ∀ opened ∈ goals, (Goal.lookup t interface []).key.length < opened.key.length)
    (room : Nat) :
    ∃ detail, r.resolveIn (r.explorer room) goals t interface [] =
      outcome (Goal.lookup t interface []) detail
        (r.select (r.survivors room goals (Goal.lookup t interface []))) := by
  cases room with
  | zero =>
      have hrefused : refuses 0 goals (Goal.lookup t interface []) = true := by simp [refuses]
      exact r.resolveIn_refused hrefused
  | succ room =>
      apply r.resolveIn_opened
      simp only [refuses, Bool.or_eq_false_iff, List.any_eq_false, decide_eq_true_eq]
      refine ⟨fun opened hopened heq => ?_, rfl⟩
      have hlength := hgoals opened hopened
      rw [heq] at hlength
      exact Nat.lt_irrefl _ hlength

-- The levels that are left go down by one with each struct.
theorem resolveIn_nested (h : r.Nests decl wrapper param) {n : Nat} {t : Ty}
    (ht : Ty.Nested wrapper n t) (room : Nat) (goals : List Goal)
    (hgoals : ∀ opened ∈ goals, (Goal.lookup t decl.name []).key.length < opened.key.length) :
    if n + 1 ≤ room then
      ∃ resolution, r.resolveIn (r.explorer room) goals t decl.name [] = .resolved resolution
    else ∃ refusal, r.resolveIn (r.explorer room) goals t decl.name [] = .unsatisfied refusal := by
  induction ht generalizing room goals with
  | core =>
      obtain ⟨detail, hresolve⟩ := r.resolveIn_shortest hgoals room
      rw [hresolve]
      cases room with
      | zero => exact ⟨_, rfl⟩
      | succ room =>
          obtain ⟨survivor, hsurvivors⟩ := survivors_core h room goals
          rw [hsurvivors, if_pos (by omega)]
          exact ⟨_, rfl⟩
  | @wrap n inner outer hinner houter ih =>
      obtain ⟨detail, hresolve⟩ := r.resolveIn_shortest hgoals room
      rw [hresolve]
      cases room with
      | zero => exact ⟨_, rfl⟩
      | succ room =>
          have hshorter : (Goal.lookup inner decl.name []).key.length <
              (Goal.lookup outer decl.name []).key.length := by
            have := houter.length_render_lt
            rw [length_key_lookup, length_key_lookup]
            omega
          have hbelow := ih room (Goal.lookup outer decl.name [] :: goals) (by
            refine List.forall_mem_cons.mpr ⟨hshorter, fun opened hopened => ?_⟩
            exact Nat.lt_trans hshorter (hgoals opened hopened))
          have hsurvivors := survivors_wraps h room goals hinner houter
          by_cases hroom : n + 1 ≤ room
          · rw [if_pos hroom] at hbelow
            obtain ⟨resolution, hresolved⟩ := hbelow
            simp only [hresolved, Outcome.isResolved, if_true] at hsurvivors
            obtain ⟨survivor, hsurvivors⟩ := hsurvivors
            rw [hsurvivors, if_pos (by omega)]
            exact ⟨_, rfl⟩
          · rw [if_neg hroom] at hbelow
            obtain ⟨refusal, hrefused⟩ := hbelow
            simp only [hrefused, Outcome.isResolved, Bool.false_eq_true, if_false] at hsurvivors
            rw [hsurvivors, if_neg (by omega)]
            exact ⟨_, rfl⟩

end Resolver

-- A struct that passes an interface on from its argument, applied so many times to an integer,
-- is found to implement it just where the limit leaves room for one goal more than that.
theorem nested_resolved_iff_room (r : Resolver) (decl : InterfaceDecl) (wrapper param : String)
    (h : r.Nests decl wrapper param) (n : Nat) (subject : Ty)
    (hsubject : Ty.Nested wrapper n subject) :
    ((r.resolve subject decl.name []).isResolved = true ↔ n + 1 ≤ r.options.maxDepth) ∧
      (¬ n + 1 ≤ r.options.maxDepth →
        ∃ refusal, r.resolve subject decl.name [] = .unsatisfied refusal) := by
  have hnested := Resolver.resolveIn_nested h hsubject r.options.maxDepth [] (by simp)
  rw [Resolver.resolve, Resolver.start]
  by_cases hroom : n + 1 ≤ r.options.maxDepth
  · rw [if_pos hroom] at hnested
    obtain ⟨resolution, hresolved⟩ := hnested
    rw [hresolved]
    exact ⟨iff_of_true rfl hroom, fun hno => absurd hroom hno⟩
  · rw [if_neg hroom] at hnested
    obtain ⟨refusal, hrefused⟩ := hnested
    rw [hrefused]
    exact ⟨iff_of_false (by simp [Outcome.isResolved]) hroom, fun _ => ⟨refusal, rfl⟩⟩

namespace Boxes

-- A box of what can be shown can be shown.

def shown : InterfaceDecl := { name := "Show" }

def box : StructDecl := ⟨"Box", [⟨"T", []⟩], ∅, [], none⟩

def boxed (inner : Ty) : Ty := .applied (Declaration.struct box).toTy [inner]

def coreImpl : Implementation := { interface := shown, target := .i32 }

def boxImpl : Implementation :=
  Implementation.deriveObligations
    { interface := shown
      generics := [⟨"T", []⟩]
      target := boxed (.param "T")
      wheres := [⟨"T", .param "T", [shown.toTy]⟩] }

def resolver (limit : Nat) : Resolver where
  env := (Environment.define ∅ "Show" (.interface shown)).define "Box" (.struct box)
  registry := ⟨[boxImpl, coreImpl]⟩
  options := { maxDepth := limit }

theorem nests (limit : Nat) : (resolver limit).Nests shown "Box" "T" where
  declared := rfl
  plain := rfl
  param_ne := by decide
  entries := by
    refine ⟨coreImpl, boxImpl, List.Perm.swap _ _ _, ⟨rfl, rfl, rfl, rfl⟩, ?_⟩
    exact ⟨rfl, rfl, .applied ["T"], _, rfl, rfl, rfl⟩

end Boxes

-- The inner box is written as an instance. Three goals are open when the integer is reached.
theorem box_of_box_needs_three_goals :
    ((Boxes.resolver 3).resolve (Boxes.boxed (.inst "Box" [.i32])) "Show" []).isResolved = true ∧
      ∃ refusal, (Boxes.resolver 2).resolve (Boxes.boxed (.inst "Box" [.i32])) "Show" [] =
        .unsatisfied refusal := by
  have hsubject : Ty.Nested "Box" 2 (Boxes.boxed (.inst "Box" [.i32])) :=
    .wrap (.wrap .core .inst) (.applied ["T"])
  constructor
  · exact (nested_resolved_iff_room (Boxes.resolver 3) Boxes.shown "Box" "T" (Boxes.nests 3) 2 _
      hsubject).1.mpr (by decide)
  · exact (nested_resolved_iff_room (Boxes.resolver 2) Boxes.shown "Box" "T" (Boxes.nests 2) 2 _
      hsubject).2 (by decide)

end Conformance
