import Conformance.Proofs.AliasInstances
import Conformance.Proofs.RegistryOrder

namespace Conformance

theorem argsCompatible_alike {xs xs' ys ys' : List Ty}
    (hx : xs.map Ty.unalias = xs'.map Ty.unalias) (hy : ys.map Ty.unalias = ys'.map Ty.unalias) :
    argsCompatible xs ys = argsCompatible xs' ys' := by
  have hview : ∀ xs ys : List Ty,
      argsCompatible xs ys = argsCompatible (xs.map Ty.unalias) (ys.map Ty.unalias) := by
    intro xs ys
    simp [argsCompatible, List.zip_map, List.all_map, Function.comp_def, Ty.isUnknown_unalias,
      Ty.isParam_unalias, Ty.equivalent_unalias]
  rw [hview xs ys, hview xs' ys', hx, hy]

theorem AlikeMatches.close {found found' : Option Match} (h : AlikeMatches found found')
    (generics : List (TypeParam Ty)) :
    AlikeMatches (found.map (·.close generics)) (found'.map (·.close generics)) := by
  obtain ⟨rfl, rfl⟩ | ⟨m, m', rfl, rfl, hs, hscore⟩ := h.cases
  · exact none
  · have hclosed := Substitution.close_alike generics hs
    simp only [AlikeMatches, Match.unalias, Option.map_some, hclosed]
    simp [Match.close, hscore]

namespace Ty

variable {a b : Ty}

theorem matchType_alike (h : a.unalias = b.unalias) (target : Ty) (generics : List (TypeParam Ty)) :
    AlikeMatches (matchType a target generics) (matchType b target generics) := by
  have hunify : AlikeMatches (unify target a ∅) (unify target b ∅) := unify_alike target h rfl
  exact hunify.close generics

theorem matchArgs_alike {xs ys : List Ty} (h : xs.map unalias = ys.map unalias)
    (targets : List Ty) (generics : List (TypeParam Ty)) :
    AlikeMatches (matchArgs xs targets generics) (matchArgs ys targets generics) := by
  have hlength : xs.length = ys.length := by simpa using congrArg List.length h
  have hunify : AlikeMatches (unifyAll targets xs ∅) (unifyAll targets ys ∅) :=
    unifyAll_alike targets h rfl
  rw [matchArgs, matchArgs, hlength]
  split
  · rfl
  · split
    · exact hunify.close generics
    · exact .none

theorem asInterface?_map_alike (h : a.unalias = b.unalias) :
    a.asInterface?.map (Prod.map id (List.map unalias)) =
      b.asInterface?.map (Prod.map id (List.map unalias)) := by
  have hcognate := cognate_resolveAlias h
  rw [asInterface?, asInterface?]
  generalize a.resolveAlias = x at hcognate
  generalize b.resolveAlias = y at hcognate
  cases hcognate with
  | @applied base base' _ _ _ _ hbase hargs =>
      have hcognate := cognate_resolveAlias hbase
      dsimp only
      generalize base.resolveAlias = c at hcognate
      generalize base'.resolveAlias = d at hcognate
      cases hcognate with
      | same =>
          cases c with
          | declared family name params =>
              cases family with
              | interface => simp [hargs]
              | _ => rfl
          | _ => rfl
      | _ => rfl
  | _ => rfl

theorem asInterface?_alike (h : a.unalias = b.unalias) :
    (a.asInterface? = none ∧ b.asInterface? = none) ∨
      ∃ name xs ys, a.asInterface? = some (name, xs) ∧ b.asInterface? = some (name, ys) ∧
        xs.map unalias = ys.map unalias := by
  have hview := asInterface?_map_alike h
  rcases ha : a.asInterface? with _ | ⟨name, xs⟩ <;>
    rcases hb : b.asInterface? with _ | ⟨name', ys⟩ <;>
    simp only [ha, hb, Option.map_none, Option.map_some, reduceCtorEq, Option.some.injEq,
      Prod.map_apply, id_eq, Prod.mk.injEq] at hview
  · exact .inl ⟨rfl, rfl⟩
  · obtain ⟨rfl, hargs⟩ := hview
    exact .inr ⟨name, xs, ys, rfl, rfl, hargs⟩

end Ty

-- Two readings of a constraint that name the same interface with arguments that look the
-- same, or no interface at all.
def AlikeConstraints : Except ConstraintFault ConstraintInterface →
    Except ConstraintFault ConstraintInterface → Prop
  | .error _, .error _ => True
  | .ok a, .ok b =>
      a.name = b.name ∧ a.arity = b.arity ∧ a.args.map Ty.unalias = b.args.map Ty.unalias
  | _, _ => False

namespace AlikeConstraints

theorem refl (reading : Except ConstraintFault ConstraintInterface) :
    AlikeConstraints reading reading := by
  cases reading with
  | error fault => trivial
  | ok interface => exact ⟨rfl, rfl, rfl⟩

theorem named (env : Environment) (name : String) {xs ys : List Ty}
    (h : xs.map Ty.unalias = ys.map Ty.unalias) :
    AlikeConstraints (env.namedInterface name xs) (env.namedInterface name ys) := by
  simp only [Environment.namedInterface]
  split
  · exact ⟨rfl, rfl, h⟩
  · trivial
  · trivial

theorem constraint (env : Environment) {a b : Ty} (h : a.unalias = b.unalias) :
    AlikeConstraints (env.constraintInterface a) (env.constraintInterface b) := by
  have hcognate := Ty.cognate_resolveAlias h
  rw [Environment.constraintInterface, Environment.constraintInterface]
  generalize a.resolveAlias = x at hcognate
  generalize b.resolveAlias = y at hcognate
  cases hcognate with
  | same => exact refl _
  | inst name hargs => exact named env name hargs
  | @applied base base' _ _ _ _ hbase hargs =>
      have hcognate := Ty.cognate_resolveAlias hbase
      dsimp only
      generalize base.resolveAlias = c at hcognate
      generalize base'.resolveAlias = d at hcognate
      cases hcognate with
      | same =>
          cases c with
          | declared family name params =>
              cases family with
              | union => exact refl _
              | _ => exact named env name hargs
          | _ => exact refl _
      | _ => trivial
  | _ => trivial

theorem checked (env : Environment) {a b : Ty} (h : a.unalias = b.unalias) :
    AlikeConstraints (env.checkedInterface a) (env.checkedInterface b) := by
  have hconstraint := constraint env h
  rw [Environment.checkedInterface, Environment.checkedInterface]
  cases hx : env.constraintInterface a with
  | error fault =>
      cases hy : env.constraintInterface b with
      | error fault' => trivial
      | ok interface => simp [hx, hy, AlikeConstraints] at hconstraint
  | ok interface =>
      cases hy : env.constraintInterface b with
      | error fault => simp [hx, hy, AlikeConstraints] at hconstraint
      | ok interface' =>
          rw [hx, hy] at hconstraint
          obtain ⟨hname, harity, hargs⟩ := hconstraint
          have hlength : interface.args.length = interface'.args.length := by
            simpa using congrArg List.length hargs
          by_cases hfits : interface'.args.length = interface'.arity
          · simp only [ConstraintInterface.fault?, hlength, harity, hfits, if_true]
            exact ⟨hname, harity, hargs⟩
          · simp only [ConstraintInterface.fault?, hlength, harity, hfits, if_false]
            trivial

end AlikeConstraints

theorem Ty.mem_parts_self (t : Ty) : t ∈ t.parts := by
  cases t <;> simp [Ty.parts]

theorem Ty.cognate_of_not_isPlain {a b : Ty} (h : a.unalias = b.unalias)
    (hplain : a.isPlain = false) : Cognate a b := by
  have hother : b.isPlain = false := by
    rw [← isPlain_unalias, ← h, isPlain_unalias, hplain]
  have hnot : ∀ t : Ty, t.isPlain = false → t.isAlias = false := by
    intro t ht
    cases t with
    | «alias» => cases ht
    | _ => rfl
  exact cognate_of_not_isAlias (hnot a hplain) (hnot b hother) h

theorem implementsBy_alike_plain {resolve resolve' : Ty → Outcome} (interface : String)
    {args args' : List Ty} (hargs : args.map Ty.unalias = args'.map Ty.unalias) {a b : Ty}
    (h : a.unalias = b.unalias) (hplain : a.isPlain = true)
    (hresolve : (resolve a).isResolved = (resolve' b).isResolved) :
    (implementsBy resolve interface args a).isResolved =
      (implementsBy resolve' interface args' b).isResolved := by
  have hother : b.isPlain = true := by
    rw [← Ty.isPlain_unalias, ← h, Ty.isPlain_unalias, hplain]
  rw [implementsBy_of_isPlain _ _ _ hplain, implementsBy_of_isPlain _ _ _ hother]
  obtain ⟨ha, hb⟩ | ⟨name, xs, ys, ha, hb, hown⟩ := Ty.asInterface?_alike h
  · rw [ha, hb]
    exact hresolve
  · rw [ha, hb]
    dsimp only
    rw [argsCompatible_alike hown hargs]
    split
    · rfl
    · exact hresolve

mutual
-- Whether a type implements an interface depends on which types that look like its parts do.
theorem implementsBy_alike {resolve resolve' : Ty → Outcome} (interface : String)
    {args args' : List Ty} (hargs : args.map Ty.unalias = args'.map Ty.unalias) : (a : Ty) →
    {b : Ty} → a.unalias = b.unalias →
    (∀ x ∈ a.parts, ∀ y ∈ b.parts, x.unalias = y.unalias →
      (resolve x).isResolved = (resolve' y).isResolved) →
    (implementsBy resolve interface args a).isResolved =
      (implementsBy resolve' interface args' b).isResolved
  | .unknown, b, h, _ => by
      cases Ty.cognate_of_not_isPlain h rfl
      rfl
  | .param _, b, h, _ => by
      cases Ty.cognate_of_not_isPlain h rfl
      rfl
  | .nullable inner, b, h, hparts => by
      have hself := hparts (.nullable inner) (Ty.mem_parts_self _) b (Ty.mem_parts_self b) h
      obtain ⟨other, rfl, hinner⟩ : ∃ other, b = .nullable other ∧ inner.unalias = other.unalias := by
        cases Ty.cognate_of_not_isPlain h rfl with
        | same => exact ⟨inner, rfl, rfl⟩
        | nullable hinner => exact ⟨_, rfl, hinner⟩
      have hthrough := implementsBy_alike interface hargs inner hinner fun x hx y hy =>
        hparts x (by simp [Ty.parts, hx]) y (by simp [Ty.parts, hy])
      rw [implementsBy_isResolved_nullable, implementsBy_isResolved_nullable, hself, hthrough]
  | .anyOf members, b, h, hparts => by
      have hself := hparts (.anyOf members) (Ty.mem_parts_self _) b (Ty.mem_parts_self b) h
      obtain rfl : Ty.anyOf members = b := by
        cases Ty.cognate_of_not_isPlain h rfl
        rfl
      have hmembers := firstFailing_alike interface hargs members fun x hx y hy =>
        hparts x (by simp [Ty.parts, hx]) y (by simp [Ty.parts, hy])
      rw [implementsBy_isResolved_anyOf, implementsBy_isResolved_anyOf, hself, hmembers]
  | .scalar _, _, h, hparts | .declared _ _ _, _, h, hparts | .inst _ _, _, h, hparts
  | .alias _ _, _, h, hparts | .applied _ _, _, h, hparts | .function _, _, h, hparts
  | .overload _, _, h, hparts | .unary _ _, _, h, hparts | .map _ _, _, h, hparts =>
      implementsBy_alike_plain interface hargs h rfl
        (hparts _ (Ty.mem_parts_self _) _ (Ty.mem_parts_self _) h)
theorem firstFailing_alike {resolve resolve' : Ty → Outcome} (interface : String)
    {args args' : List Ty} (hargs : args.map Ty.unalias = args'.map Ty.unalias) :
    (ts : List Ty) →
    (∀ x ∈ Ty.allParts ts, ∀ y ∈ Ty.allParts ts, x.unalias = y.unalias →
      (resolve x).isResolved = (resolve' y).isResolved) →
    (firstFailing resolve interface args ts).isNone =
      (firstFailing resolve' interface args' ts).isNone
  | [], _ => rfl
  | t :: ts, hparts => by
      have hfirst : (implementsBy resolve interface args t).isResolved =
          (implementsBy resolve' interface args' t).isResolved :=
        implementsBy_alike interface hargs t rfl fun x hx y hy =>
          hparts x (by simp [Ty.allParts, hx]) y (by simp [Ty.allParts, hy])
      have hrest : (firstFailing resolve interface args ts).isNone =
          (firstFailing resolve' interface args' ts).isNone :=
        firstFailing_alike interface hargs ts fun x hx y hy =>
          hparts x (by simp [Ty.allParts, hx]) y (by simp [Ty.allParts, hy])
      rw [firstFailing_isNone_cons, firstFailing_isNone_cons, hfirst, hrest]
end

def Survivor.unalias (survivor : Survivor) : Survivor :=
  ⟨survivor.impl, survivor.substitution.map Ty.unalias, survivor.args.map Ty.unalias,
    survivor.score⟩

-- A goal seen through the aliases of its subject and its arguments.
def Goal.view (goal : Goal) : Ty × String × List Ty × Bool :=
  (goal.subject.unalias, goal.interface, goal.args.map Ty.unalias, goal.blanket)

-- The arguments and obligations of all implementations are regular.
def Registry.IsRegular (registry : Registry) : Prop :=
  ∀ impl ∈ registry.entries, (∀ arg ∈ impl.args, arg.isRegular = true) ∧
    ∀ obligation ∈ impl.obligations,
      obligation.subject.isRegular = true ∧ obligation.constraint.isRegular = true

instance (registry : Registry) : Decidable registry.IsRegular :=
  inferInstanceAs (Decidable (∀ impl ∈ registry.entries,
    (∀ arg ∈ impl.args, arg.isRegular = true) ∧ ∀ obligation ∈ impl.obligations,
      obligation.subject.isRegular = true ∧ obligation.constraint.isRegular = true))

namespace Resolver

-- On the way to an answer the texts of goals tell them apart as their views do: a goal is
-- open under its text exactly if it is open at all.
def TellsApart (r : Resolver) (origin : Goal) : Prop :=
  ∀ room goals goal, r.Asks origin room goals goal → ∀ opened ∈ goals,
    (opened.key = goal.key ↔ opened.view = goal.view)

-- Two goals that are asked for at the same depth of two lookups and look the same, as the
-- goals around them do.
structure Parallel (r : Resolver) (origin origin' : Goal) (room : Nat) (goals goals' : List Goal)
    (goal goal' : Goal) : Prop where
  asks : r.Asks origin room goals goal
  asks' : r.Asks origin' room goals' goal'
  around : goals.map Goal.view = goals'.map Goal.view
  view : goal.view = goal'.view

section Parallel

variable {r : Resolver} {origin origin' : Goal} {room : Nat} {goals goals' : List Goal}
  {goal goal' : Goal}

theorem refuses_eq_view (htells : r.TellsApart origin) (hasks : r.Asks origin room goals goal) :
    refuses room goals goal = (decide (goal.view ∈ goals.map Goal.view) || room == 0) := by
  have hany : (goals.any fun opened => opened.key = goal.key) =
      decide (goal.view ∈ goals.map Goal.view) := by
    rw [Bool.eq_iff_iff]
    simp only [List.any_eq_true, decide_eq_true_eq, List.mem_map]
    constructor
    · rintro ⟨opened, hmem, hkey⟩
      exact ⟨opened, hmem, (htells room goals goal hasks opened hmem).mp hkey⟩
    · rintro ⟨opened, hmem, hview⟩
      exact ⟨opened, hmem, (htells room goals goal hasks opened hmem).mpr hview⟩
  rw [refuses, hany]

theorem Parallel.refuses_eq (h : r.Parallel origin origin' room goals goals' goal goal')
    (htells : r.TellsApart origin) (htells' : r.TellsApart origin') :
    refuses room goals goal = refuses room goals' goal' := by
  rw [refuses_eq_view htells h.asks, refuses_eq_view htells' h.asks', h.around, h.view]

variable (r) in
theorem select_alike {among others : List Survivor}
    (h : among.map Survivor.unalias = others.map Survivor.unalias) :
    (r.select among).map (Choice.map Survivor.unalias) =
      (r.select others).map (Choice.map Survivor.unalias) := by
  have hview := congrArg (Conformance.select r.compare fun survivor => survivor.impl.interfaceName) h
  rwa [select_map, select_map] at hview

-- A lookup whose survivors look the same resolves or does not.
theorem resolveIn_alike {subject subject' : Ty} {interface : String} {args args' : List Ty}
    (hrefuses : refuses room goals (Goal.lookup subject interface args) =
      refuses room goals' (Goal.lookup subject' interface args'))
    (hsurvivors : refuses room goals (Goal.lookup subject interface args) = false →
      (r.survivors room goals (Goal.lookup subject interface args)).map Survivor.unalias =
        (r.survivors room goals' (Goal.lookup subject' interface args')).map Survivor.unalias) :
    (r.resolveIn (r.explorer room) goals subject interface args).isResolved =
      (r.resolveIn (r.explorer room) goals' subject' interface args').isResolved := by
  cases hcase : refuses room goals (Goal.lookup subject interface args) with
  | true =>
      obtain ⟨detail, heq⟩ := r.resolveIn_refused hcase
      obtain ⟨detail', heq'⟩ := r.resolveIn_refused (hrefuses ▸ hcase)
      rw [heq, heq']
      rfl
  | false =>
      obtain ⟨detail, heq⟩ := r.resolveIn_opened hcase
      obtain ⟨detail', heq'⟩ := r.resolveIn_opened (hrefuses ▸ hcase)
      have hchoice := select_alike r (hsurvivors hcase)
      rw [heq, heq', outcome_isResolved, outcome_isResolved]
      rcases hx : r.select (r.survivors room goals (Goal.lookup subject interface args)) with
          _ | _ | _ <;>
        rcases hy : r.select (r.survivors room goals' (Goal.lookup subject' interface args')) with
          _ | _ | _ <;>
        simp [hx, hy, Choice.map] at hchoice ⊢

def fitView (fit : Survivor × Match) : Survivor × Match := (fit.1.unalias, fit.2.unalias)

theorem fit?_alike {a b : Survivor} (h : a.unalias = b.unalias) (targetArgs : List Ty)
    (generics : List (TypeParam Ty)) :
    (fit? targetArgs generics a).map fitView = (fit? targetArgs generics b).map fitView := by
  have hargs : a.args.map Ty.unalias = b.args.map Ty.unalias := congrArg Survivor.args h
  have hmatch := Ty.matchArgs_alike hargs targetArgs generics
  obtain ⟨hx, hy⟩ | ⟨m, m', hx, hy, hs, hscore⟩ := hmatch.cases
  · simp [fit?, hx, hy]
  · simp [fit?, hx, hy, fitView, h, Match.unalias, hs, hscore]

theorem filterMap_alike {α β γ : Type} {view : α → β} {f : α → Option γ} {xs ys : List α}
    (h : xs.map view = ys.map view) (hf : ∀ x y, view x = view y → f x = f y) :
    xs.filterMap f = ys.filterMap f := by
  induction xs generalizing ys with
  | nil =>
      obtain rfl : ys = [] := by simpa using h.symm
      rfl
  | cons x xs ih =>
      cases ys with
      | nil => simp at h
      | cons y ys =>
          simp only [List.map_cons, List.cons.injEq] at h
          rw [List.filterMap_cons, List.filterMap_cons, hf x y h.1, ih h.2]

theorem matchOfChoice_map (choice : Option (Choice (Survivor × Match))) :
    matchOfChoice (choice.map (Choice.map fitView)) = (matchOfChoice choice).map Match.unalias := by
  rcases choice with _ | _ | _ <;> rfl

theorem matchInterface_alike {subject subject' : Ty} {interface : String}
    (hrefuses : refuses room goals (Goal.target subject interface) =
      refuses room goals' (Goal.target subject' interface))
    (hsurvivors : refuses room goals (Goal.target subject interface) = false →
      (r.survivors room goals (Goal.target subject interface)).map Survivor.unalias =
        (r.survivors room goals' (Goal.target subject' interface)).map Survivor.unalias)
    (targetArgs : List Ty) (generics : List (TypeParam Ty)) :
    AlikeMatches (r.matchInterface (r.explorer room) goals subject interface targetArgs generics)
      (r.matchInterface (r.explorer room) goals' subject' interface targetArgs generics) := by
  cases hcase : refuses room goals (Goal.target subject interface) with
  | true =>
      rw [matchInterface_refused r _ _ hcase, matchInterface_refused r _ _ (hrefuses ▸ hcase)]
      exact .none
  | false =>
      have hfits : ((r.survivors room goals (Goal.target subject interface)).filterMap
          (fit? targetArgs generics)).map fitView =
          ((r.survivors room goals' (Goal.target subject' interface)).filterMap
            (fit? targetArgs generics)).map fitView := by
        rw [List.map_filterMap, List.map_filterMap]
        exact filterMap_alike (hsurvivors hcase) fun a b hab => fit?_alike hab targetArgs generics
      have hchoice := congrArg (Conformance.select (fun a b => r.compare a.1 b.1)
        fun fit => fit.1.impl.interfaceName) hfits
      rw [select_map, select_map] at hchoice
      rw [matchInterface_opened r _ _ hcase, matchInterface_opened r _ _ (hrefuses ▸ hcase),
        AlikeMatches, ← matchOfChoice_map, ← matchOfChoice_map]
      exact congrArg matchOfChoice hchoice

theorem matchTargetIn_alike {subject subject' target : Ty} {generics : List (TypeParam Ty)}
    (h : subject.unalias = subject'.unalias)
    (hinterface : ∀ interface targetArgs, target.asInterface? = some (interface, targetArgs) →
      AlikeMatches
        (r.matchInterface (r.explorer room) goals subject interface targetArgs generics)
        (r.matchInterface (r.explorer room) goals' subject' interface targetArgs generics)) :
    AlikeMatches (r.matchTargetIn (r.explorer room) goals subject target generics)
      (r.matchTargetIn (r.explorer room) goals' subject' target generics) := by
  unfold matchTargetIn
  cases htarget : target.asInterface? with
  | none => exact Ty.matchType_alike h target generics
  | some pair =>
      obtain ⟨interface, targetArgs⟩ := pair
      have hnested := hinterface interface targetArgs htarget
      dsimp only
      rw [Ty.isUnknown_alike h]
      split
      · exact .none
      · obtain ⟨ha, hb⟩ | ⟨name, xs, ys, ha, hb, hown⟩ := Ty.asInterface?_alike h
        · rw [ha, hb]
          exact hnested
        · rw [ha, hb]
          dsimp only
          split
          · exact Ty.matchArgs_alike hown targetArgs generics
          · exact hnested

theorem holds_alike {obligation obligation' : Obligation}
    (hsubject : obligation.subject.unalias = obligation'.subject.unalias)
    (hconstraint : obligation.constraint.unalias = obligation'.constraint.unalias)
    (hparts : ∀ interface interface',
      r.env.checkedInterface obligation.constraint = .ok interface →
      r.env.checkedInterface obligation'.constraint = .ok interface' →
      interface.name = interface'.name →
      interface.args.map Ty.unalias = interface'.args.map Ty.unalias →
      ∀ x ∈ obligation.subject.parts, ∀ y ∈ obligation'.subject.parts, x.unalias = y.unalias →
        (r.resolveIn (r.explorer room) goals x interface.name interface.args).isResolved =
          (r.resolveIn (r.explorer room) goals' y interface'.name interface'.args).isResolved) :
    r.Holds (r.explorer room) goals obligation ↔ r.Holds (r.explorer room) goals' obligation' := by
  have hchecked := AlikeConstraints.checked r.env hconstraint
  cases hx : r.env.checkedInterface obligation.constraint with
  | error fault =>
      cases hy : r.env.checkedInterface obligation'.constraint with
      | error fault' => simp [Holds, hx, hy]
      | ok interface => simp [hx, hy, AlikeConstraints] at hchecked
  | ok interface =>
      cases hy : r.env.checkedInterface obligation'.constraint with
      | error fault => simp [hx, hy, AlikeConstraints] at hchecked
      | ok interface' =>
          rw [hx, hy] at hchecked
          obtain ⟨hname, -, hargs⟩ := hchecked
          have himplements : (r.implementsIn (r.explorer room) goals obligation.subject
              interface.name interface.args).isResolved =
              (r.implementsIn (r.explorer room) goals' obligation'.subject interface'.name
                interface'.args).isResolved := by
            have hresolve := hparts interface interface' hx hy hname hargs
            rw [implementsIn, implementsIn, ← hname]
            rw [← hname] at hresolve
            exact implementsBy_alike interface.name hargs obligation.subject hsubject hresolve
          simp only [Holds, hx, hy, Except.ok.injEq, exists_eq_left', himplements,
            Ty.isUnknown_alike hsubject, Ty.isParam_alike hsubject]

section Assess

variable (hregular : r.registry.IsRegular) {impl : Implementation}
  (himpl : impl ∈ r.registry.entries) (hview : goal.view = goal'.view)
  (hmatch : AlikeMatches
    (r.matchTargetIn (r.explorer room) goals goal.subject impl.target impl.generics)
    (r.matchTargetIn (r.explorer room) goals' goal'.subject impl.target impl.generics))
  (hholds : ∀ found found',
    r.matchTargetIn (r.explorer room) goals goal.subject impl.target impl.generics =
      some found →
    r.matchTargetIn (r.explorer room) goals' goal'.subject impl.target impl.generics =
      some found' →
    ∀ obligation ∈ impl.obligations,
      (r.Holds (r.explorer room) goals (obligation.substitute
        (Substitution.complete found.substitution r.env impl goal.subject)) ↔
      r.Holds (r.explorer room) goals' (obligation.substitute
        (Substitution.complete found'.substitution r.env impl goal'.subject))))

include hregular himpl hview hmatch hholds

theorem assess_alike_forward {survivor : Survivor}
    (h : (r.assess (r.explorer room) goals goal impl).survivor? = some survivor) :
    ∃ survivor', (r.assess (r.explorer room) goals' goal' impl).survivor? = some survivor' ∧
      survivor.unalias = survivor'.unalias := by
  obtain ⟨found, hfound, rfl, hs, hargs, hscore, hcompatible, hobligations⟩ :=
    (r.assess_survivor?_eq_some_iff _ _ _ _ _).mp h
  obtain ⟨hnone, -⟩ | ⟨m, found', hm, hfound', hsubst, hpoints⟩ := hmatch.cases
  · simp [hfound] at hnone
  obtain rfl : found = m := by simpa [hfound] using hm
  have hsubject : goal.subject.unalias = goal'.subject.unalias := congrArg Prod.fst hview
  have hasked : goal.args.map Ty.unalias = goal'.args.map Ty.unalias :=
    congrArg (fun v => v.2.2.1) hview
  have hcomplete := Substitution.complete_alike r.env (hregular _ himpl).1 hsubject hsubst
  rw [← hs] at hcomplete
  generalize hs' : Substitution.complete found'.substitution r.env survivor.impl goal'.subject =
    s' at hcomplete
  have hgiven : survivor.args.map Ty.unalias =
      (survivor.impl.args.map (Ty.substitute · s')).map Ty.unalias := by
    rw [hargs, List.map_map, List.map_map]
    refine List.map_congr_left fun arg hmem => ?_
    exact Ty.substitute_alike hcomplete ((hregular _ himpl).1 arg hmem)
  refine ⟨⟨survivor.impl, s', survivor.impl.args.map (Ty.substitute · s'), found'.score⟩, ?_, ?_⟩
  · refine (r.assess_survivor?_eq_some_iff _ _ _ _ _).mpr
      ⟨found', hfound', rfl, hs'.symm, rfl, rfl, ?_, fun obligation hmem => ?_⟩
    · rw [← argsCompatible_alike hgiven hasked]
      exact hcompatible
    · have hhere := hobligations obligation hmem
      rw [hs] at hhere
      have hthere := (hholds found found' hfound hfound' obligation hmem).mp hhere
      rwa [hs'] at hthere
  · simp only [Survivor.unalias, hcomplete, hgiven, hscore, hpoints]

theorem assess_alike :
    (r.assess (r.explorer room) goals goal impl).survivor?.map Survivor.unalias =
      (r.assess (r.explorer room) goals' goal' impl).survivor?.map Survivor.unalias := by
  cases hx : (r.assess (r.explorer room) goals goal impl).survivor? with
  | some survivor =>
      obtain ⟨survivor', hy, heq⟩ := assess_alike_forward hregular himpl hview hmatch hholds hx
      simp [hy, heq]
  | none =>
      cases hy : (r.assess (r.explorer room) goals' goal' impl).survivor? with
      | none => rfl
      | some survivor' =>
          obtain ⟨survivor, hx', -⟩ := assess_alike_forward hregular himpl hview.symm hmatch.symm
            (fun found' found hfound' hfound obligation hmem =>
              (hholds found found' hfound hfound' obligation hmem).symm) hy
          simp [hx] at hx'

end Assess

-- The survivors of two goals that look the same look the same. The induction is on the
-- levels left, which the goals nested in a goal have one less of.
theorem Parallel.survivors_eq (hregular : r.registry.IsRegular) (htells : r.TellsApart origin)
    (htells' : r.TellsApart origin') (h : r.Parallel origin origin' room goals goals' goal goal')
    (hopen : refuses room goals goal = false) :
    (r.survivors room goals goal).map Survivor.unalias =
      (r.survivors room goals' goal').map Survivor.unalias := by
  induction room generalizing goals goals' goal goal' with
  | zero => simp [refuses] at hopen
  | succ room ih =>
      have hopen' : refuses (room + 1) goals' goal' = false := by
        rw [← h.refuses_eq htells htells', hopen]
      have hsubject : goal.subject.unalias = goal'.subject.unalias := congrArg Prod.fst h.view
      have hinterface : goal.interface = goal'.interface := congrArg (fun v => v.2.1) h.view
      have haround : (goal :: goals).map Goal.view = (goal' :: goals').map Goal.view := by
        rw [List.map_cons, List.map_cons, h.view, h.around]
      rw [survivors_succ, survivors_succ, List.map_filterMap, List.map_filterMap, ← hinterface]
      apply List.filterMap_congr
      intro impl hmem
      have hmem' : impl ∈ r.registry.candidates (servingInterfaces goal'.interface) :=
        hinterface ▸ hmem
      have himpl := (Registry.mem_candidates.mp hmem).1
      have hmatch : AlikeMatches
          (r.matchTargetIn (r.explorer room) (goal :: goals) goal.subject impl.target impl.generics)
          (r.matchTargetIn (r.explorer room) (goal' :: goals') goal'.subject impl.target
            impl.generics) := by
        apply matchTargetIn_alike hsubject
        intro interface targetArgs htarget
        have hnested : r.Parallel origin origin' room (goal :: goals) (goal' :: goals')
            (Goal.target goal.subject interface) (Goal.target goal'.subject interface) :=
          ⟨.blanket h.asks hopen hmem htarget, .blanket h.asks' hopen' hmem' htarget, haround,
            by simp [Goal.view, Goal.target, hsubject]⟩
        exact matchInterface_alike (hnested.refuses_eq htells htells') (ih hnested) targetArgs
          impl.generics
      refine assess_alike hregular himpl h.view hmatch ?_
      intro found found' hfound hfound' obligation hobligation
      have hfoundAlike : found.substitution.map Ty.unalias = found'.substitution.map Ty.unalias := by
        have hunaliased : found.unalias = found'.unalias := by
          simpa [AlikeMatches, hfound, hfound'] using hmatch
        exact congrArg Match.substitution hunaliased
      have hcomplete := Substitution.complete_alike r.env (hregular impl himpl).1 hsubject hfoundAlike
      obtain ⟨hregularSubject, hregularConstraint⟩ := (hregular impl himpl).2 obligation hobligation
      refine holds_alike (Ty.substitute_alike hcomplete hregularSubject)
        (Ty.substitute_alike hcomplete hregularConstraint) ?_
      intro interface interface' hchecked hchecked' hname hargs x hx y hy hxy
      have hnested : r.Parallel origin origin' room (goal :: goals) (goal' :: goals')
          (Goal.lookup x interface.name interface.args)
          (Goal.lookup y interface'.name interface'.args) :=
        ⟨.obligation h.asks hopen hmem hfound hobligation hchecked hx,
          .obligation h.asks' hopen' hmem' hfound' hobligation hchecked' hy, haround,
          by simp [Goal.view, Goal.lookup, hxy, hname, hargs]⟩
      rw [← hname] at hnested ⊢
      exact resolveIn_alike (hnested.refuses_eq htells htells') (ih hnested)

-- Two types that look the same implement the same interfaces.
theorem implements_alike (hregular : r.registry.IsRegular) {a b : Ty} (h : a.unalias = b.unalias)
    (interface : String) (args : List Ty)
    (hleft : ∀ part ∈ a.parts, r.TellsApart (Goal.lookup part interface args))
    (hright : ∀ part ∈ b.parts, r.TellsApart (Goal.lookup part interface args)) :
    (r.implements a interface args).isResolved = (r.implements b interface args).isResolved := by
  refine implementsBy_alike interface rfl a h fun x hx y hy hxy => ?_
  have hparallel : r.Parallel (Goal.lookup x interface args) (Goal.lookup y interface args)
      r.options.maxDepth [] [] (Goal.lookup x interface args) (Goal.lookup y interface args) :=
    ⟨.origin, .origin, rfl, by simp [Goal.view, Goal.lookup, hxy]⟩
  exact resolveIn_alike (hparallel.refuses_eq (hleft x hx) (hright y hy))
    (hparallel.survivors_eq hregular (hleft x hx) (hright y hy))

end Parallel

-- The goals that are asked for right below a goal, where so many levels are left for them.
def nested (r : Resolver) (room : Nat) (goals : List Goal) (goal : Goal) : List Goal :=
  (r.registry.candidates (servingInterfaces goal.interface)).flatMap fun impl =>
    (impl.target.asInterface?.toList.map fun target => Goal.target goal.subject target.1) ++
      (r.matchTargetIn (r.explorer room) (goal :: goals) goal.subject impl.target
        impl.generics).toList.flatMap fun found =>
          (impl.obligations.map (Obligation.substitute ·
            (Substitution.complete found.substitution r.env impl goal.subject))).flatMap
              fun obligation =>
                match r.env.checkedInterface obligation.constraint with
                | .error _ => []
                | .ok interface =>
                    obligation.subject.parts.map fun part =>
                      Goal.lookup part interface.name interface.args

-- All goals asked for from a goal on, each with the goals around it.
def asked (r : Resolver) : Nat → List Goal → Goal → List (List Goal × Goal)
  | 0, goals, goal => [(goals, goal)]
  | room + 1, goals, goal =>
      (goals, goal) ::
        if refuses (room + 1) goals goal then []
        else (r.nested room goals goal).flatMap (r.asked room (goal :: goals))

section Asked

variable {r : Resolver} {origin : Goal} {room : Nat} {goals : List Goal} {goal : Goal}

theorem mem_asked_self : (goals, goal) ∈ r.asked room goals goal := by
  cases room <;> simp [asked]

theorem mem_nested_blanket {impl : Implementation} {interface : String} {targetArgs : List Ty}
    (himpl : impl ∈ r.registry.candidates (servingInterfaces goal.interface))
    (htarget : impl.target.asInterface? = some (interface, targetArgs)) :
    Goal.target goal.subject interface ∈ r.nested room goals goal := by
  refine List.mem_flatMap.mpr ⟨impl, himpl, List.mem_append_left _ ?_⟩
  simp [htarget]

theorem mem_nested_obligation {impl : Implementation} {found : Match} {obligation : Obligation}
    {interface : ConstraintInterface} {part : Ty}
    (himpl : impl ∈ r.registry.candidates (servingInterfaces goal.interface))
    (hfound : r.matchTargetIn (r.explorer room) (goal :: goals) goal.subject impl.target
      impl.generics = some found)
    (hmem : obligation ∈ impl.obligations)
    (hinterface : r.env.checkedInterface (obligation.substitute
      (Substitution.complete found.substitution r.env impl goal.subject)).constraint =
        .ok interface)
    (hpart : part ∈ (obligation.substitute
      (Substitution.complete found.substitution r.env impl goal.subject)).subject.parts) :
    Goal.lookup part interface.name interface.args ∈ r.nested room goals goal := by
  refine List.mem_flatMap.mpr ⟨impl, himpl, List.mem_append_right _ ?_⟩
  rw [hfound]
  refine List.mem_flatMap.mpr ⟨found, by simp, List.mem_flatMap.mpr
    ⟨_, List.mem_map_of_mem hmem, ?_⟩⟩
  rw [hinterface]
  exact List.mem_map_of_mem hpart

theorem asked_subset_of_nested {goal' : Goal} (hopen : refuses (room + 1) goals goal = false)
    (hmem : goal' ∈ r.nested room goals goal) :
    r.asked room (goal :: goals) goal' ⊆ r.asked (room + 1) goals goal := by
  intro position hposition
  rw [asked, hopen, if_neg Bool.false_ne_true]
  exact List.mem_cons_of_mem _ (List.mem_flatMap.mpr ⟨goal', hmem, hposition⟩)

-- Nothing is asked for on the way to an answer but what is listed.
theorem Asks.mem_asked (h : r.Asks origin room goals goal) :
    (goals, goal) ∈ r.asked r.options.maxDepth [] origin := by
  have hsubset : r.asked room goals goal ⊆ r.asked r.options.maxDepth [] origin := by
    induction h with
    | origin => exact List.Subset.refl _
    | blanket _ hopen himpl htarget ih =>
        exact List.Subset.trans (asked_subset_of_nested hopen (mem_nested_blanket himpl htarget)) ih
    | obligation _ hopen himpl hfound hmem hinterface hpart ih =>
        exact List.Subset.trans (asked_subset_of_nested hopen
          (mem_nested_obligation himpl hfound hmem hinterface hpart)) ih
  exact hsubset mem_asked_self

theorem tellsApart_of_asked (h : ∀ position ∈ r.asked r.options.maxDepth [] origin,
    ∀ opened ∈ position.1, (opened.key = position.2.key ↔ opened.view = position.2.view)) :
    r.TellsApart origin :=
  fun _ goals goal hasks => h (goals, goal) hasks.mem_asked

end Asked

end Resolver

theorem Ty.parts_of_isPlain {t : Ty} (h : t.isPlain = true) : t.parts = [t] := by
  cases t with
  | nullable | anyOf => cases h
  | _ => rfl

-- An alias implements what its target does.
theorem implements_alias_iff (r : Resolver) (hregular : r.registry.IsRegular) (name : String)
    (t : Ty) (hplain : t.isPlain = true) (interface : String) (args : List Ty)
    (hname : r.TellsApart (Goal.lookup (.alias name t) interface args))
    (htarget : r.TellsApart (Goal.lookup t interface args)) :
    (r.implements (.alias name t) interface args).isResolved = true ↔
      (r.implements t interface args).isResolved = true := by
  have hview : (Ty.alias name t).unalias = t.unalias := by
    rw [Ty.unalias, Ty.isPlain_unalias, hplain, if_pos rfl]
  rw [Resolver.implements_alike hregular hview]
  · simpa [Ty.parts] using hname
  · simpa [Ty.parts_of_isPlain hplain] using htarget

namespace Grid

def line : Ty := .alias "Line" (.unary .array .bool)

def showImpl (target : Ty) : Implementation := { interface := { name := "Show" }, target := target }

-- Arrays of what can be shown can be shown, and what can be shown can be printed.
def arrayImpl : Implementation := Circle.bounded "T" ["Show"] (.unary .array (.param "T"))

def printImpl : Implementation :=
  { interface := { name := "Print" }, target := .declared .interface "Show" [] }

def cloneImpl : Implementation := { interface := { name := "Clone" }, target := .bool }

-- Shows arrays if arrays are shown.
def recurringImpl : Implementation :=
  Implementation.deriveObligations {
    interface := { name := "Show" }
    generics := [⟨"T", []⟩]
    target := .unary .array (.param "T")
    wheres := [⟨"T", .unary .array (.param "T"), [.declared .interface "Show" []]⟩] }

def copiedImpl : Implementation := Circle.bounded "U" ["Clone"] (.unary .array (.param "U"))

def resolver (impls : List Implementation) : Resolver where
  env := ["Show", "Print", "Clone"].foldl
    (fun env name => env.define name (.interface { name := name })) ∅
  registry := ⟨impls⟩

end Grid

-- A nullable type implements an interface through what it holds, and its alias does not.
theorem nullable_alias_unsatisfied :
    ((Grid.resolver [Grid.showImpl .bool]).implements (.nullable .bool) "Show"
        []).isResolved = true ∧
      ((Grid.resolver [Grid.showImpl .bool]).implements (.alias "MaybeBit" (.nullable .bool))
        "Show" []).isResolved = false := by
  refine ⟨by decide +kernel, by decide +kernel⟩

-- An array is shown by the second implementation, since the first asks for what is being
-- asked. Under the name of the array it asks for something new, and the two tie.
example :
    ((Grid.resolver [Grid.cloneImpl, Grid.recurringImpl, Grid.copiedImpl]).implements
        (.unary .array .bool) "Show" []).isResolved = true ∧
      ((Grid.resolver [Grid.cloneImpl, Grid.recurringImpl, Grid.copiedImpl]).implements Grid.line
        "Show" []).isResolved = false := by
  refine ⟨by decide +kernel, by decide +kernel⟩

-- A grid of lines, under a name, can be printed.
theorem grid_alias_printed :
    ((Grid.resolver [Grid.showImpl .bool, Grid.arrayImpl, Grid.printImpl]).implements
        (.unary .array Grid.line) "Print" []).isResolved = true ∧
      ((Grid.resolver [Grid.showImpl .bool, Grid.arrayImpl, Grid.printImpl]).implements
        (.alias "Grid" (.unary .array Grid.line)) "Print" []).isResolved = true := by
  have hresolved : ((Grid.resolver [Grid.showImpl .bool, Grid.arrayImpl,
      Grid.printImpl]).implements (.unary .array Grid.line) "Print" []).isResolved = true := by
    decide +kernel
  have hregular : (Grid.resolver [Grid.showImpl .bool, Grid.arrayImpl,
      Grid.printImpl]).registry.IsRegular := by
    decide +kernel
  refine ⟨hresolved, (implements_alias_iff _ hregular "Grid" _ rfl "Print" []
    (Resolver.tellsApart_of_asked (by decide +kernel))
    (Resolver.tellsApart_of_asked (by decide +kernel))).mpr hresolved⟩

end Conformance
