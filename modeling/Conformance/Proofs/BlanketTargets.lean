import Conformance.Proofs.AliasTransparency
import Conformance.Proofs.DepthLimit
import Conformance.Proofs.WhereOrder

namespace Conformance

-- The target of a blanket implementation is explored like a lookup, and as a goal with a name
-- of its own. What asks for the subject again on the way there may find it open on one path
-- and not on the other.

namespace Resolver

variable {r : Resolver} {room : Nat} {goals : List Goal} {subject : Ty} {interface : String}

theorem resolveIn_isResolved_iff (args : List Ty)
    (hopen : refuses room goals (Goal.lookup subject interface args) = false) :
    (r.resolveIn (r.explorer room) goals subject interface args).isResolved = true ↔
      ∃ winner, r.select (r.survivors room goals (Goal.lookup subject interface args)) =
        some (.winner winner) := by
  obtain ⟨detail, hopened⟩ := r.resolveIn_opened hopen
  rw [hopened, outcome_isResolved]
  rcases r.select (r.survivors room goals (Goal.lookup subject interface args)) with
    _ | winner | tied <;> simp

-- Without arguments of its own the target takes every survivor as it is.
theorem filterMap_fit?_nil (generics : List (TypeParam Ty)) (survivors : List Survivor) :
    survivors.filterMap (fit? [] generics) =
      survivors.map fun survivor => (survivor, Match.close ⟨∅, 0⟩ generics) := by
  have hfit : fit? [] generics =
      some ∘ fun survivor => (survivor, Match.close ⟨∅, 0⟩ generics) := rfl
  rw [hfit, List.filterMap_eq_map]

theorem matchInterface_isSome_iff (generics : List (TypeParam Ty))
    (hopen : refuses room goals (Goal.target subject interface) = false) :
    (r.matchInterface (r.explorer room) goals subject interface [] generics).isSome = true ↔
      ∃ winner, r.select (r.survivors room goals (Goal.target subject interface)) =
        some (.winner winner) := by
  rw [matchInterface_opened r [] generics hopen, filterMap_fit?_nil, select_map]
  change (matchOfChoice ((r.select _).map _)).isSome = true ↔ _
  rcases r.select (r.survivors room goals (Goal.target subject interface)) with
    _ | winner | tied <;> simp [matchOfChoice, Choice.map]

-- A blanket implementation that asks for nothing else survives if its target is matched.
theorem assess_isSome_iff {below : Option Explorer} {goal : Goal} {impl : Implementation}
    (hargs : goal.args = []) (hobligations : impl.obligations = []) :
    (r.assess below goals goal impl).survivor?.isSome = true ↔
      (r.matchTargetIn below goals goal.subject impl.target impl.generics).isSome = true := by
  rw [assess]
  cases r.matchTargetIn below goals goal.subject impl.target impl.generics with
  | none => simp [Assessment.survivor?]
  | some found =>
      simp [hargs, hobligations, argsCompatible, firstFailure?, Assessment.survivor?]

-- On the way to an answer for the target, what is asked for is the lookup it began with if
-- and only if the blanket path has it open, as its target or as the lookup it began with.
structure NoWayBack (r : Resolver) (subject : Ty) (interface target : String) : Prop where
  apart : (Goal.lookup subject interface []).key ≠ (Goal.target subject target).key
  onward : ∀ room goals goal,
    r.Asks (Goal.lookup subject target []) (room + 1) (goals ++ [Goal.lookup subject target []])
      goal →
    ((Goal.lookup subject target []).key = goal.key ↔
      (Goal.target subject target).key = goal.key ∨
        (Goal.lookup subject interface []).key = goal.key)

theorem noWayBack_of_asked {target : String}
    (hapart : (Goal.lookup subject interface []).key ≠ (Goal.target subject target).key)
    (h : ∀ position ∈ r.asked r.options.maxDepth [] (Goal.lookup subject target []),
      position.1 = [] ∨ ((Goal.lookup subject target []).key = position.2.key ↔
        (Goal.target subject target).key = position.2.key ∨
          (Goal.lookup subject interface []).key = position.2.key)) :
    r.NoWayBack subject interface target := by
  refine ⟨hapart, fun room goals goal hasks => ?_⟩
  rcases h _ hasks.mem_asked with hnil | hiff
  · simp at hnil
  · exact hiff

theorem akin_withLimit (r : Resolver) (limit limit' : Nat) :
    (r.withLimit limit).Akin (r.withLimit limit') :=
  ⟨rfl, rfl, List.forall₂_same.mpr fun impl _ => .refl impl⟩

-- With no way back, what is asked for below the target is explored alike on both paths.
theorem explore_target_alike {target : String} {depth : Nat} {asked : Goal}
    (hway : (r.withLimit depth).NoWayBack subject interface target)
    (hasked : (r.withLimit depth).Asks (Goal.lookup subject target []) room
      ([] ++ [Goal.lookup subject target []]) asked) :
    AlikeExplored
      ((r.withLimit depth).explore ((r.withLimit depth).explorer room)
        [Goal.lookup subject target []] asked)
      ((r.withLimit (depth + 1)).explore ((r.withLimit (depth + 1)).explorer room)
        [Goal.target subject target, Goal.lookup subject interface []] asked) := by
  have hsame : ∀ left goals goal,
      (r.withLimit depth).Asks (Goal.lookup subject target []) (left + 1)
        (goals ++ [Goal.lookup subject target []]) goal →
      ([Goal.lookup subject target []].any fun opened => opened.key = goal.key) =
        [Goal.target subject target, Goal.lookup subject interface []].any fun opened =>
          opened.key = goal.key := by
    intro left goals goal hasks
    simp [hway.onward left goals goal hasks]
  have halike :=
    (r.akin_withLimit depth (depth + 1)).explore (fun _ _ detail => detail) hsame hasked
  rwa [rewordedExplorer_id] at halike

theorem survivors_target_alike {target : String} {depth : Nat}
    (hway : (r.withLimit depth).NoWayBack subject interface target) :
    List.Forall₂ Survivor.Alike
      ((r.withLimit depth).survivors depth [] (Goal.lookup subject target []))
      ((r.withLimit (depth + 1)).survivors depth [Goal.lookup subject interface []]
        (Goal.target subject target)) := by
  obtain _ | room := depth
  · exact .nil
  · have hopen : refuses (room + 1) [] (Goal.lookup subject target []) = false := rfl
    rw [survivors_succ, survivors_succ]
    refine List.rel_filterMap (R := fun impl impl' => impl = impl' ∧ impl ∈ r.registry.candidates
      (servingInterfaces target)) ?_ (List.forall₂_same.mpr fun impl himpl => ⟨rfl, himpl⟩)
    rintro impl _ ⟨rfl, himpl⟩
    apply Assessment.Alike.survivor?
    refine (r.akin_withLimit _ _).assess rfl rfl (.refl impl) ?_ ?_
    · intro nested targetArgs htarget
      exact explore_target_alike hway (.blanket .origin hopen himpl htarget)
    · intro found hfound obligation hobligation constraint hconstraint part hpart
      exact explore_target_alike hway
        (.obligation .origin hopen himpl hfound hobligation hconstraint hpart)

theorem exists_winner_iff {choice choice' : Option (Choice Survivor)}
    (h : Option.Rel (Choice.Rel Survivor.Alike) choice choice') :
    (∃ winner, choice = some (.winner winner)) ↔ ∃ winner, choice' = some (.winner winner) := by
  cases h with
  | none => simp
  | some hrel => cases hrel <;> simp

-- The target is matched on the blanket path if the lookup of the target finds something. With
-- no room neither of them gets anywhere.
theorem matchInterface_target_iff {target : String} {depth : Nat} (generics : List (TypeParam Ty))
    (hway : (r.withLimit depth).NoWayBack subject interface target) :
    ((r.withLimit (depth + 1)).matchInterface ((r.withLimit (depth + 1)).explorer depth)
        [Goal.lookup subject interface []] subject target [] generics).isSome = true ↔
      ((r.withLimit depth).resolve subject target []).isResolved = true := by
  obtain _ | room := depth
  · have hrefused : refuses 0 [Goal.lookup subject interface []] (Goal.target subject target) =
        true := by simp [refuses]
    rw [matchInterface_refused _ [] generics hrefused]
    obtain ⟨detail, hunsatisfied⟩ := (r.withLimit 0).resolveIn_refused
      (show refuses 0 [] (Goal.lookup subject target []) = true from rfl)
    have hresolve : (r.withLimit 0).resolve subject target [] = _ := hunsatisfied
    rw [hresolve]
    simp [Outcome.isResolved]
  · have hopen : refuses (room + 1) [Goal.lookup subject interface []]
        (Goal.target subject target) = false := by
      simp [refuses, hway.apart]
    have hselect := (r.akin_withLimit (room + 1) (room + 2)).select (survivors_target_alike hway)
    rw [matchInterface_isSome_iff generics hopen, ← exists_winner_iff hselect]
    exact (resolveIn_isResolved_iff [] rfl).symm

-- A lookup with a single candidate is resolved if the candidate survives.
theorem resolveIn_only_iff {only : Implementation}
    (honly : r.registry.candidates (servingInterfaces interface) = [only]) :
    (r.resolveIn (r.explorer (room + 1)) [] subject interface []).isResolved = true ↔
      (r.assess (r.explorer room) [Goal.lookup subject interface []]
        (Goal.lookup subject interface []) only).survivor?.isSome = true := by
  rw [resolveIn_isResolved_iff [] rfl, survivors_succ]
  change (∃ winner, r.select ((r.registry.candidates (servingInterfaces interface)).filterMap _) =
    some (.winner winner)) ↔ _
  rw [honly, List.filterMap_cons, List.filterMap_nil]
  cases (r.assess (r.explorer room) [Goal.lookup subject interface []]
    (Goal.lookup subject interface []) only).survivor? with
  | none => simp [select, Conformance.select]
  | some survivor => simpa using ⟨survivor, rfl⟩

end Resolver

-- Where a blanket implementation is the only one of its interface and asks for nothing besides
-- its target, a subject has the interface if and only if it has the target, with one level
-- less. That is so as long as nothing on the way leads back to the subject.
theorem blanket_resolved_iff_target_resolved (r : Resolver) (interface target : String)
    (blanket : Implementation)
    (honly : r.registry.candidates (servingInterfaces interface) = [blanket])
    (htarget : blanket.target.asInterface? = some (target, []))
    (hobligations : blanket.obligations = []) (depth : Nat) (subject : Ty)
    (hknown : subject.isUnknown = false) (hconcrete : subject.asInterface? = none)
    (hway : (r.withLimit depth).NoWayBack subject interface target) :
    ((r.withLimit (depth + 1)).resolve subject interface []).isResolved = true ↔
      ((r.withLimit depth).resolve subject target []).isResolved = true := by
  have hmatch : (r.withLimit (depth + 1)).matchTargetIn ((r.withLimit (depth + 1)).explorer depth)
      [Goal.lookup subject interface []] subject blanket.target blanket.generics =
      (r.withLimit (depth + 1)).matchInterface ((r.withLimit (depth + 1)).explorer depth)
        [Goal.lookup subject interface []] subject target [] blanket.generics := by
    simp [Resolver.matchTargetIn, htarget, hknown, hconcrete]
  rw [← Resolver.matchInterface_target_iff blanket.generics hway, ← hmatch]
  calc ((r.withLimit (depth + 1)).resolve subject interface []).isResolved = true
    _ ↔ _ := Resolver.resolveIn_only_iff honly
    _ ↔ _ := Resolver.assess_isSome_iff rfl hobligations

-- The tower is shown with three goals open and printed with four. With one less it is neither.
theorem tower_printed_iff_shown :
    (Tower.resolver.withLimit 3).NoWayBack Tower.subject "Print" "Show" ∧
      ((Tower.resolver.withLimit 3).resolve Tower.subject "Show" []).isResolved = true ∧
      ((Tower.resolver.withLimit 4).resolve Tower.subject "Print" []).isResolved = true ∧
      ((Tower.resolver.withLimit 2).resolve Tower.subject "Show" []).isResolved = false ∧
      ¬ ((Tower.resolver.withLimit 3).resolve Tower.subject "Print" []).isResolved = true := by
  have hway : ∀ depth ∈ [2, 3],
      (Tower.resolver.withLimit depth).NoWayBack Tower.subject "Print" "Show" := by
    intro depth hdepth
    apply Resolver.noWayBack_of_asked (by decide +kernel)
    revert depth
    decide +kernel
  have hiff : ∀ depth ∈ [2, 3],
      (((Tower.resolver.withLimit (depth + 1)).resolve Tower.subject "Print" []).isResolved = true ↔
        ((Tower.resolver.withLimit depth).resolve Tower.subject "Show" []).isResolved = true) :=
    fun depth hdepth => blanket_resolved_iff_target_resolved Tower.resolver "Print" "Show"
      Grid.printImpl (by decide +kernel) rfl rfl depth Tower.subject rfl rfl (hway depth hdepth)
  have hshown : ((Tower.resolver.withLimit 3).resolve Tower.subject "Show" []).isResolved =
      true := by
    decide +kernel
  have hhidden : ((Tower.resolver.withLimit 2).resolve Tower.subject "Show" []).isResolved =
      false := by
    decide +kernel
  refine ⟨hway 3 (by simp), hshown, (hiff 3 (by simp)).mpr hshown, hhidden, ?_⟩
  rw [hiff 2 (by simp), hhidden]
  exact Bool.false_ne_true

namespace Grid

-- Shows arrays if they have some interface.
def returningImpl (back : String) : Implementation :=
  Implementation.deriveObligations {
    interface := { name := "Show" }
    generics := [⟨"T", []⟩]
    target := .unary .array (.param "T")
    wheres := [⟨"T", .unary .array (.param "T"), [.declared .interface back []]⟩] }

def returning (back : String) : Resolver :=
  resolver [cloneImpl, returningImpl back, copiedImpl, printImpl]

end Grid

-- An array is shown by one of two implementations, since the other asks for what is open. As the
-- target of what is to be printed it is not recognised, and the two tie. If the other asks for
-- the array to be printed it is the lookup that ties.
theorem blanket_departs_from_target :
    (∀ back ∈ ["Show", "Print"],
        (Grid.returning back).registry.candidates (servingInterfaces "Print") = [Grid.printImpl]) ∧
      (((Grid.returning "Show").withLimit 8).resolve (.unary .array .bool) "Show"
        []).isResolved = true ∧
      (((Grid.returning "Show").withLimit 9).resolve (.unary .array .bool) "Print"
        []).isResolved = false ∧
      (((Grid.returning "Print").withLimit 8).resolve (.unary .array .bool) "Show"
        []).isResolved = false ∧
      (((Grid.returning "Print").withLimit 9).resolve (.unary .array .bool) "Print"
        []).isResolved = true := by
  refine ⟨by decide +kernel, by decide +kernel, by decide +kernel, by decide +kernel,
    by decide +kernel⟩

end Conformance
