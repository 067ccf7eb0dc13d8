import Conformance.Proofs.Duplicates
import Conformance.Proofs.Precedence

namespace Conformance

-- What is built in is never preferred to what the user has written for the same type. Among
-- survivors for scalars the flag decides only after constraints and scores, but nothing that
-- beats the user's survivor can lose to a built-in one later.

theorem strictSuperset_self (labels : List String) : strictSuperset labels labels = false := by
  simp [strictSuperset]

theorem compareVariants_self (variants : List String) :
    compareVariants variants variants = none := by
  unfold compareVariants
  cases variants.isEmpty <;> simp [properSubset]

namespace Survivor

-- Each rule of the comparison, where the rules before it say nothing.
section Rules

variable {a b : Survivor}

theorem compare_of_keyed (preferUser : Bool) (hconcrete : a.impl.isConcrete = b.impl.isConcrete)
    (ha : a.impl.constraintKeys ≠ []) (hb : b.impl.constraintKeys = []) :
    a.compare preferUser b = .gt := by
  apply compare_of_more_keys preferUser hconcrete
  · simp [hb]
  · rw [hb]
    exact fun hsub => ha (List.subset_nil.mp hsub)

theorem compare_of_unrestricted (preferUser : Bool)
    (hconcrete : a.impl.isConcrete = b.impl.isConcrete)
    (hkeys : a.impl.constraintKeys = b.impl.constraintKeys)
    (ha : a.impl.variants = []) (hb : b.impl.variants ≠ []) : a.compare preferUser b = .gt := by
  have hvariants : compareVariants a.impl.variants b.impl.variants = some .gt := by
    rw [ha, compareVariants, List.isEmpty_eq_false_iff.mpr hb]
    rfl
  simp [Survivor.compare, hconcrete, hkeys, strictSuperset_self, hvariants]

theorem compare_of_score (preferUser : Bool) (hconcrete : a.impl.isConcrete = b.impl.isConcrete)
    (hkeys : a.impl.constraintKeys = b.impl.constraintKeys)
    (hvariants : a.impl.variants = b.impl.variants) (hscore : b.score < a.score) :
    a.compare preferUser b = .gt := by
  have hgt : Ord.compare a.score b.score = .gt := Nat.compare_eq_gt.mpr hscore
  simp [Survivor.compare, hconcrete, hkeys, strictSuperset_self, hvariants, compareVariants_self,
    hgt]

theorem compare_of_user (hconcrete : a.impl.isConcrete = b.impl.isConcrete)
    (hkeys : a.impl.constraintKeys = b.impl.constraintKeys)
    (hvariants : a.impl.variants = b.impl.variants) (hscore : a.score = b.score)
    (ha : a.impl.isBuiltin = false) (hb : b.impl.isBuiltin = true) :
    a.compare true b = .gt := by
  simp [Survivor.compare, hconcrete, hkeys, strictSuperset_self, hvariants, compareVariants_self,
    hscore, ha, hb]

end Rules

-- The survivors that are above every built-in one with so many points: concrete ones that are
-- constrained, or that are not restricted to a union and have more points, or as many and are
-- the user's.
def aboveBuiltin (points : Nat) (survivor : Survivor) : Bool :=
  survivor.impl.isConcrete &&
    (!survivor.impl.constraintKeys.isEmpty ||
      survivor.impl.variants.isEmpty &&
        (points < survivor.score || survivor.score == points && !survivor.impl.isBuiltin))

theorem aboveBuiltin_iff {points : Nat} {survivor : Survivor} :
    survivor.aboveBuiltin points = true ↔ survivor.impl.isConcrete = true ∧
      (survivor.impl.constraintKeys ≠ [] ∨ survivor.impl.variants = [] ∧
        (points < survivor.score ∨ survivor.score = points ∧ survivor.impl.isBuiltin = false)) := by
  simp [aboveBuiltin]

-- They are a layer that overtops all other survivors, so the comparison cannot lead out of it.
theorem compare_of_aboveBuiltin {points : Nat} {a b : Survivor}
    (ha : a.aboveBuiltin points = true) (hb : b.aboveBuiltin points = false) :
    a.compare true b = .gt := by
  obtain ⟨haConcrete, ha⟩ := aboveBuiltin_iff.mp ha
  have hbelow : ¬ b.aboveBuiltin points = true := by simp [hb]
  rw [aboveBuiltin_iff] at hbelow
  cases hbConcrete : b.impl.isConcrete with
  | false => exact compare_of_concrete true haConcrete hbConcrete
  | true =>
      have hconcrete := haConcrete.trans hbConcrete.symm
      obtain ⟨hbKeys, hbelow⟩ : b.impl.constraintKeys = [] ∧ ¬ (b.impl.variants = [] ∧
          (points < b.score ∨ b.score = points ∧ b.impl.isBuiltin = false)) := by
        simpa [hbConcrete, not_or] using hbelow
      by_cases haKeys : a.impl.constraintKeys = []
      · obtain ⟨haVariants, ha⟩ := ha.resolve_left fun h => h haKeys
        have hkeys := haKeys.trans hbKeys.symm
        by_cases hbVariants : b.impl.variants = []
        · have hvariants := haVariants.trans hbVariants.symm
          have hlow : ¬ (points < b.score ∨ b.score = points ∧ b.impl.isBuiltin = false) :=
            fun h => hbelow ⟨hbVariants, h⟩
          by_cases hscore : b.score < a.score
          · exact compare_of_score true hconcrete hkeys hvariants hscore
          · -- Both have just so many points, and only the flags differ.
            have hpoints : a.score = points ∧ b.score = points := by omega
            obtain ⟨-, hown⟩ := ha.resolve_left (by omega)
            have hgiven : b.impl.isBuiltin = true := by
              simpa using fun h => hlow (.inr ⟨hpoints.2, h⟩)
            exact compare_of_user hconcrete hkeys hvariants (hpoints.1.trans hpoints.2.symm) hown
              hgiven
        · exact compare_of_unrestricted true hconcrete hkeys haVariants hbVariants
      · exact compare_of_keyed true hconcrete haKeys hbKeys

end Survivor

namespace Registry

theorem scalar_of_mem_comparable {target : Ty} (h : target ∈ comparable) :
    ∃ kind, target = .scalar kind := by
  simp only [comparable, ordered, List.mem_append, List.mem_cons, List.mem_map, List.not_mem_nil,
    or_false] at h
  rcases h with ((rfl | rfl | rfl) | ⟨kind, -, rfl⟩) | rfl | rfl <;> exact ⟨_, rfl⟩

theorem targets_subset_comparable {pair : String × List Ty} (h : pair ∈ builtinTargets) :
    pair.2 ⊆ comparable := by
  have hordered : ordered ⊆ comparable := fun t ht => List.mem_append_left _ ht
  have htargets : pair.2 = ordered ∨ pair.2 = comparable := by
    simp only [builtinTargets, List.mem_cons, List.not_mem_nil, or_false] at h
    rcases h with rfl | rfl | rfl | rfl | rfl | rfl | rfl <;> simp
  rcases htargets with heq | heq <;> rw [heq]
  · exact hordered
  · exact fun t ht => ht

-- What is built in is for one scalar, with no parameters and no obligations.
theorem mem_builtins {env : Environment} {impl : Implementation} (h : impl ∈ builtins env) :
    ∃ interface kind,
      impl = { interface := interface, target := .scalar kind, isBuiltin := true } := by
  obtain ⟨pair, hpair, himpl⟩ := List.mem_flatMap.mp h
  dsimp only at himpl
  split at himpl
  · rename_i interface _
    split at himpl
    · obtain ⟨target, htarget, rfl⟩ := List.mem_map.mp himpl
      obtain ⟨kind, rfl⟩ := scalar_of_mem_comparable (targets_subset_comparable hpair htarget)
      exact ⟨interface, kind, rfl⟩
    · cases himpl
  · cases himpl

end Registry

namespace Resolver

variable {r : Resolver}

-- All targets that are scalars match a subject with the same points.
theorem score_of_scalar {room : Nat} {goals : List Goal} {goal : Goal} {survivor : Survivor}
    (hmem : survivor ∈ r.survivors room goals goal) {kind : Scalar}
    (htarget : survivor.impl.target = .scalar kind) :
    survivor.score = if goal.subject.resolveAlias.isUnknown then 0 else 1 := by
  obtain ⟨found, hfound, -, -, -, hscore, -⟩ :=
    (r.assess_survivor?_eq_some_iff _ _ _ _ _).mp (mem_survivors hmem).2
  rw [hscore]
  rw [htarget, matchTargetIn, show Ty.asInterface? (.scalar kind) = none from rfl] at hfound
  obtain ⟨m, hm, rfl⟩ := Option.map_eq_some_iff.mp hfound
  rw [Match.close]
  rw [Ty.unify] at hm
  split at hm
  · rename_i hunknown
    obtain rfl := Option.some.inj hm
    simp [hunknown, Ty.isUnknown]
  · rename_i other hscalar
    split at hm
    · obtain rfl := Option.some.inj hm
      simp [hscalar, Ty.isUnknown]
    · cases hm
  · cases hm

-- Where the user's survivor is for a scalar, no survivor that is built in can be the winner.
theorem select_winner_user {room : Nat} {goals : List Goal} {goal : Goal} {user winner : Survivor}
    (hprefer : r.options.preferUser = true)
    (hbuiltins : ∀ impl ∈ r.registry.entries, impl.isBuiltin = true →
      ∃ env, impl ∈ Registry.builtins env)
    (huser : user ∈ r.survivors room goals goal) (hown : user.impl.isBuiltin = false)
    {kind : Scalar} (htarget : user.impl.target = .scalar kind)
    (hselect : r.select (r.survivors room goals goal) = some (.winner winner)) :
    winner.impl.isBuiltin = false := by
  have hconcrete : user.impl.isConcrete = true := by
    rw [Implementation.isConcrete, htarget]
    rfl
  have hvariants : user.impl.variants = [] := by
    rw [Implementation.variants, htarget]
    rfl
  have habove : user.aboveBuiltin user.score = true :=
    Survivor.aboveBuiltin_iff.mpr ⟨hconcrete, .inr ⟨hvariants, .inr ⟨rfl, hown⟩⟩⟩
  have hover : Overtops r.compare (Survivor.aboveBuiltin user.score)
      (r.survivors room goals goal) := by
    intro a _ b _ ha hb
    rw [compare, hprefer]
    exact Survivor.compare_of_aboveBuiltin ha hb
  rw [select, select_filter _ hover ⟨user, huser, habove⟩] at hselect
  obtain ⟨hmem, hwinner⟩ := List.mem_filter.mp (select_winner_mem hselect)
  by_contra hnot
  have hgiven : winner.impl.isBuiltin = true := by simpa using hnot
  -- A winner that is built in has no constraints and just as many points as the user's.
  have hregistered := (Registry.mem_candidates.mp (mem_survivors hmem).1).1
  obtain ⟨env, henv⟩ := hbuiltins winner.impl hregistered hgiven
  obtain ⟨interface, other, himpl⟩ := Registry.mem_builtins henv
  have hscore : winner.score = user.score := by
    rw [score_of_scalar hmem (show winner.impl.target = .scalar other by rw [himpl]),
      score_of_scalar huser htarget]
  have hkeys : winner.impl.constraintKeys = [] := by
    rw [himpl]
    rfl
  obtain ⟨-, hhigh⟩ := Survivor.aboveBuiltin_iff.mp hwinner
  simp [hkeys, hscore, hgiven] at hhigh

end Resolver

-- Where an implementation of the user survives for the target of a built-in one, the built-in
-- one is not chosen, and nor is any other. The two need not be of the same interface, as long
-- as both serve the lookup.
theorem builtin_never_shadows_user (r : Resolver) (subject : Ty) (interface : String)
    (args : List Ty) (hprefer : r.options.preferUser = true)
    (hbuiltins : ∀ impl ∈ r.registry.entries, impl.isBuiltin = true →
      ∃ env, impl ∈ Registry.builtins env)
    (user builtin : Survivor) (huser : user ∈ r.finalists (Goal.lookup subject interface args))
    (hbuiltin : builtin ∈ r.finalists (Goal.lookup subject interface args))
    (hown : user.impl.isBuiltin = false) (hgiven : builtin.impl.isBuiltin = true)
    (htarget : user.impl.target = builtin.impl.target) :
    (∀ survivor, r.chosen? (Goal.lookup subject interface args) = some survivor →
      survivor.impl ≠ builtin.impl) ∧
    ∀ resolution, r.resolve subject interface args = .resolved resolution →
      resolution.isBuiltin = false := by
  have hregistered := (Registry.mem_candidates.mp (Resolver.mem_survivors hbuiltin).1).1
  obtain ⟨env, henv⟩ := hbuiltins builtin.impl hregistered hgiven
  obtain ⟨declared, kind, himpl⟩ := Registry.mem_builtins henv
  have hscalar : user.impl.target = .scalar kind := by rw [htarget, himpl]
  have hchosen : ∀ survivor, r.chosen? (Goal.lookup subject interface args) = some survivor →
      survivor.impl.isBuiltin = false := fun survivor h =>
    Resolver.select_winner_user hprefer hbuiltins huser hown hscalar
      (Resolver.chosen?_eq_some_iff.mp h)
  refine ⟨fun survivor h heq => ?_, fun resolution h => ?_⟩
  · have hfalse := hchosen survivor h
    rw [heq, hgiven] at hfalse
    cases hfalse
  · obtain ⟨survivor, hsome, rfl⟩ := (r.resolve_eq_resolved_iff _ _ _ _).mp h
    exact hchosen survivor hsome

namespace Equality

-- Integers can be compared from the start, in two ways, and by an implementation of the user.

def partialEq : InterfaceDecl := { name := "PartialEq" }

def env : Environment :=
  (Environment.define ∅ "Eq" (.interface { name := "Eq" })).define "PartialEq"
    (.interface partialEq)

def userImpl : Implementation := { interface := partialEq, target := .i32 }

def builtinImpl : Implementation := { interface := partialEq, target := .i32, isBuiltin := true }

def resolver : Resolver where
  env := env
  registry := ⟨Registry.builtins env ++ [userImpl]⟩

def survivor (impl : Implementation) : Survivor := ⟨impl, ⟨[("Self", .i32)]⟩, [], 1⟩

end Equality

theorem integer_equality_of_user :
    Equality.resolver.resolve .i32 "PartialEq" [] = .resolved {
        interface := "PartialEq"
        label := "impl PartialEq for i32"
        substitution := ⟨[("Self", .i32)]⟩
        score := 1
        isBuiltin := false } ∧
      ∀ survivor, Equality.resolver.chosen? (Goal.lookup .i32 "PartialEq" []) =
          some survivor → survivor.impl ≠ Equality.builtinImpl := by
  refine ⟨by decide +kernel, (builtin_never_shadows_user Equality.resolver .i32
    "PartialEq" [] rfl ?_ (Equality.survivor Equality.userImpl)
    (Equality.survivor Equality.builtinImpl) (by decide +kernel) (by decide +kernel) rfl rfl
    rfl).1⟩
  intro impl hmem hgiven
  rcases List.mem_append.mp hmem with hmem | hmem
  · exact ⟨Equality.env, hmem⟩
  · rw [List.mem_singleton.mp hmem] at hgiven
    cases hgiven

end Conformance
