import Conformance.Proofs.SharedParameters
import Conformance.Proofs.UnionOrder
import Mathlib.Algebra.Group.Prod
import Mathlib.Algebra.Order.Group.Multiset

namespace Conformance

-- When unions without names match as sets: when the order of their members does not decide
-- whether they match and what they earn.

namespace Ty

section Demands

-- What a target demands its parameters to stand for in a subject, and what the subject earns.
def demanded (target t : Ty) : Option (Multiset (String × Ty) × Nat) :=
  (unify target t ∅).map fun m =>
    (target.paramNames.filterMap fun name => (m.substitution.get? name).map (name, ·), m.score)

-- Demands on one name say the same.
def Agreeing (demands : Multiset (String × Ty)) : Prop :=
  ∀ p ∈ demands, ∀ q ∈ demands, p.1 = q.1 → equivalent p.2 q.2 = true

instance : DecidablePred Agreeing := fun demands =>
  inferInstanceAs (Decidable (∀ p ∈ demands, ∀ q ∈ demands, p.1 = q.1 → equivalent p.2 q.2 = true))

-- Demands that can be met together, with the points earned so far.
def Together (before : Multiset (String × Ty) × Nat) : Prop := Agreeing before.1

instance : DecidablePred Together := fun before => inferInstanceAs (Decidable (Agreeing before.1))

variable {s : Substitution} {demands own : Multiset (String × Ty)} {target t : Ty} {points : Nat}

theorem demanded_eq_some (h : demanded target t = some (own, points)) :
    ∃ m, unify target t ∅ = some m ∧ m.score = points ∧
      ∀ name value, (name, value) ∈ own ↔ m.substitution.get? name = some value := by
  obtain ⟨m, hm, heq⟩ := Option.map_eq_some_iff.mp h
  obtain ⟨rfl, rfl⟩ := Prod.mk.inj heq
  refine ⟨m, hm, rfl, fun name value => ?_⟩
  rw [Multiset.mem_coe, List.mem_filterMap]
  constructor
  · rintro ⟨other, -, hget⟩
    obtain ⟨found, hfound, heq⟩ := Option.map_eq_some_iff.mp hget
    obtain ⟨rfl, rfl⟩ := Prod.mk.inj heq
    exact hfound
  · intro hget
    have hname : name ∈ target.paramNames := by
      by_contra hnot
      have hunbound : m.substitution.get? name = none :=
        unify_keeps hereditary_true target (bindingKeeps_unbound hnot _) trivial rfl m hm
      simp [hget] at hunbound
    exact ⟨name, hname, by rw [hget]; rfl⟩

-- What is bound is what was demanded so far.
structure Records (s : Substitution) (demands : Multiset (String × Ty)) : Prop where
  settled : s.Settled
  entries : ∀ p ∈ demands, p.2.isSettled = true
  meaningAt : ∀ name a, s.meaningAt name = some a ↔ ∃ t, (name, t) ∈ demands ∧ t.meaning = a

theorem records_empty : Records ∅ 0 where
  settled _ _ h := by cases h
  entries _ h := by simp at h
  meaningAt name a := by
    have hempty : Substitution.meaningAt ∅ name = none := rfl
    simp [hempty]

-- Targets without a union inside and without parameters in the place of constructors.
def IsDirect (target : Ty) : Prop := target.isUnionFree = true ∧ target.headNames = []

theorem Records.splits (h : Records s demands) (htarget : target.IsDirect)
    (ht : t.isSettled = true) :
    MatchesWhile (Substitution.Joins s) s.Allows (unify target t ∅) (unify target t s) :=
  unify_splits target htarget.1 htarget.2 (.inl ht) (Substitution.joins_empty h.settled)

theorem Records.agreeing_iff {m : Match} (h : Records s demands) (hm : m.substitution.Settled)
    (hown : ∀ name value, (name, value) ∈ own ↔ m.substitution.get? name = some value) :
    Agreeing (demands + own) ↔ s.Compatible m.substitution := by
  have hbound {name : String} {value : Ty} (hmem : (name, value) ∈ own) :
      m.substitution.meaningAt name = some value.meaning := by
    rw [Substitution.meaningAt, (hown name value).mp hmem, Option.map_some]
  have hdemanded {name : String} {value : Ty} (hmem : (name, value) ∈ demands) :
      s.meaningAt name = some value.meaning :=
    (h.meaningAt name value.meaning).mpr ⟨value, hmem, rfl⟩
  constructor
  · intro hagree name a b ha hb
    obtain ⟨t, ht, rfl⟩ := (h.meaningAt name a).mp ha
    obtain ⟨value, hvalue, rfl⟩ := Option.map_eq_some_iff.mp hb
    have hequivalent := hagree (name, t) (Multiset.mem_add.mpr (.inl ht)) (name, value)
      (Multiset.mem_add.mpr (.inr ((hown name value).mpr hvalue))) rfl
    exact (equivalent_iff_meaning t (h.entries _ ht) (hm name value hvalue)).mp hequivalent
  · rintro hcompatible ⟨name, t⟩ ht ⟨other, u⟩ hu heq
    obtain rfl : name = other := heq
    rw [Multiset.mem_add] at ht hu
    have hsettled {value : Ty} (hmem : (name, value) ∈ demands ∨ (name, value) ∈ own) :
        value.isSettled = true :=
      hmem.elim (h.entries _) fun hmem => hm name value ((hown name value).mp hmem)
    refine (equivalent_iff_meaning t (hsettled ht) (hsettled hu)).mpr ?_
    rcases ht with ht | ht <;> rcases hu with hu | hu
    · exact Option.some.inj ((hdemanded ht).symm.trans (hdemanded hu))
    · exact hcompatible name _ _ (hdemanded ht) (hbound hu)
    · exact (hcompatible name _ _ (hdemanded hu) (hbound ht)).symm
    · exact Option.some.inj ((hbound ht).symm.trans (hbound hu))

-- What a target records in addition is what it demands by itself.
theorem Records.join {m m' : Match} (h : Records s demands)
    (hjoins : Substitution.Joins s m.substitution m'.substitution)
    (hown : ∀ name value, (name, value) ∈ own ↔ m.substitution.get? name = some value) :
    Records m'.substitution (demands + own) where
  settled := hjoins.settled
  entries p hp := by
    rcases Multiset.mem_add.mp hp with hp | hp
    · exact h.entries p hp
    · exact hjoins.settledOwn p.1 p.2 ((hown p.1 p.2).mp hp)
  meaningAt name a := by
    have hm : m.substitution.meaningAt name = some a ↔
        ∃ t, (name, t) ∈ own ∧ t.meaning = a := by
      rw [Substitution.meaningAt, Option.map_eq_some_iff]
      simp only [hown]
    simp only [Multiset.mem_add, or_and_right, exists_or, ← h.meaningAt, ← hm]
    rw [hjoins.join name]
    cases hs : s.meaningAt name with
    | none => simp
    | some b =>
        rw [Option.some_or]
        refine ⟨.inl, ?_⟩
        rintro (hb | hb)
        · exact hb
        · rw [hjoins.compatible name b a hs hb]

theorem follows_shared {members : List Ty} (hmembers : ∀ t ∈ members, t.isSettled = true) :
    Follows Together demanded Prod.snd members fun before s targets =>
      Records s before.1 ∧ ∀ target ∈ targets, target.IsDirect where
  accepts := by
    rintro before s targets ⟨hrecords, hdirect⟩ t ht target htarget
    have hsplits := hrecords.splits (hdirect target htarget) (hmembers t ht)
    constructor
    · intro hsome
      obtain ⟨m', hm'⟩ := Option.isSome_iff_exists.mp hsome
      obtain ⟨m, hm, -, hjoins⟩ := hsplits.first m' hm'
      obtain ⟨own, hdemanded⟩ : ∃ own, demanded target t = some (own, m.score) :=
        ⟨_, by rw [demanded, hm, Option.map_some]⟩
      obtain ⟨m₀, hm₀, -, hown⟩ := demanded_eq_some hdemanded
      obtain rfl := Option.some.inj (hm.symm.trans hm₀)
      exact ⟨_, hdemanded, (hrecords.agreeing_iff hjoins.settledOwn hown).mpr hjoins.compatible⟩
    · rintro ⟨⟨own, points⟩, hdemanded, hagree⟩
      obtain ⟨m, hm, -, hown⟩ := demanded_eq_some hdemanded
      have hsettled : m.substitution.Settled :=
        unify_settled (hdirect target htarget).2 (.inl (hmembers t ht))
          (Substitution.joins_empty hrecords.settled).settledOwn hm
      exact hsplits.second m hm ((hrecords.agreeing_iff hsettled hown).mp hagree).allows
  next := by
    rintro before s targets target others ⟨hrecords, hdirect⟩ hperm t ht m' ⟨own, points⟩ hm'
      hdemanded
    have htarget := hdirect target (hperm.mem_iff.mpr List.mem_cons_self)
    obtain ⟨m, hm, hscore, hjoins⟩ := (hrecords.splits htarget (hmembers t ht)).first m' hm'
    obtain ⟨m₀, hm₀, rfl, hown⟩ := demanded_eq_some hdemanded
    obtain rfl := Option.some.inj (hm.symm.trans hm₀)
    refine ⟨⟨hrecords.join hjoins hown, fun other hother => ?_⟩, ?_⟩
    · exact hdirect other (hperm.mem_iff.mpr (List.mem_cons_of_mem _ hother))
    · exact congrArg (before.2 + ·) hscore

theorem Together.left {before after : Multiset (String × Ty) × Nat}
    (h : Together (before + after)) : Together before := by
  have hsub : before.1 ⊆ (before + after).1 := Multiset.subset_of_le (Multiset.le_add_right _ _)
  exact fun p hp q hq => h p (hsub hp) q (hsub hq)

theorem together_zero : Together (0, 0) := fun _ h => absurd h (Multiset.notMem_zero _)

-- What members earn by first fit, if a parameter stands for one thing in all their targets.
def agreedPoints (left rest : List Ty) : Option Nat :=
  (FirstFit.run Together demanded (0, 0) left rest).map Prod.snd

theorem run_earned (points : Nat) (left rest : List Ty) :
    (FirstFit.run Together demanded (0, points) left rest).map Prod.snd =
      (agreedPoints left rest).map (points + ·) := by
  have hshift : FirstFit.run Together demanded ((0, points) + (0, 0)) left rest =
      (FirstFit.run Together demanded (0, 0) left rest).map ((0, points) + ·) :=
    FirstFit.run_add (fun before => by simp [Together]) (0, 0) left rest
  rw [Prod.mk_add_mk, add_zero, add_zero] at hshift
  rw [hshift, agreedPoints, Option.map_map, Option.map_map]
  rfl

variable {members targets : List Ty}

theorem pair_shared (hmembers : ∀ t ∈ members, t.isSettled = true)
    (hdirect : ∀ target ∈ targets.diff members, target.IsDirect)
    (hlength : members.length = targets.length) :
    pairPoints members targets =
      (selfEarned (members.bagInter targets)).bind fun points =>
        (agreedPoints (members.diff targets) (targets.diff members)).map (points + ·) := by
  -- Settled members have no parameters, so those struck out bind nothing.
  refine Slot.pair_slots (I := fun s _ => s = ∅) (fun t ht _ s _ hs => ?_) rfl hlength
    fun m hm => ?_
  · have hbuilt := isBuilt_of_isSettled t (hmembers t ht)
    obtain ⟨points, hcovers⟩ := covers_of_equivalent t hbuilt hbuilt (equivalent_refl t)
    subst hs
    refine ⟨rfl, fun m hm => ?_⟩
    rw [hcovers] at hm
    exact (Option.some.inj hm) ▸ rfl
  · have hrecords : Records m.substitution 0 := hm ▸ records_empty
    rw [← run_earned]
    exact Slot.pairGreedily_follows (follows_shared hmembers) (List.diff_subset members targets)
      ⟨hrecords, hdirect⟩ rfl

-- Where targets share parameters, members can change places if what is demanded stays the same.
theorem pair_order_irrelevant_of_shared (hmembers : ∀ t ∈ members, t.isSettled = true)
    (hdirect : ∀ target ∈ targets.diff members, target.IsDirect)
    (hexchange : FirstFit.Exchangeable demanded (members.diff targets) (targets.diff members)) :
    OrderIrrelevant pairPoints members targets := by
  by_cases hlength : members.length = targets.length
  · have hpair (members' targets' : List Ty) (hm : members'.Perm members)
        (ht : targets'.Perm targets) : pairPoints members' targets' =
          (selfEarned (members.bagInter targets)).bind fun points =>
            (agreedPoints (members'.diff targets') (targets'.diff members')).map (points + ·) := by
      rw [← selfEarned_perm (hm.bagInter ht)]
      refine pair_shared (fun t h => hmembers t (hm.mem_iff.mp h))
        (fun target h => hdirect target ((ht.diff hm).mem_iff.mp h)) ?_
      rw [hm.length_eq, ht.length_eq, hlength]
    refine orderIrrelevant_of_leftOver hpair fun left rest hleft hrest => ?_
    have hsame : OrderIrrelevant (FirstFit.run Together demanded (0, 0)) (members.diff targets)
        (targets.diff members) :=
      FirstFit.run_order_irrelevant (fun _ _ => Together.left) together_zero
        (length_diff_eq hlength) hexchange
    rw [agreedPoints, agreedPoints, hsame left rest hleft hrest]
  · exact (noneInAnyOrder_of_length_ne hlength).orderIrrelevant

end Demands

section Subjects

-- A parameter takes a subject as it is written, but earns nothing by it.
theorem earned_resolveAlias (target t : Ty) : earned target t.resolveAlias = earned target t := by
  cases hparam : target.isParam with
  | false => rw [earned, unify_resolveAlias hparam, earned]
  | true =>
      have hnothing (u : Ty) : earned target u = some 0 := by
        cases target with
        | param name =>
            rw [earned, unify]
            split <;> rfl
        | _ => cases hparam
      rw [hnothing, hnothing]

theorem earned_of_unknown (target : Ty) {t : Ty} (ht : t.resolveAlias = .unknown) :
    earned target t = some 0 := by
  rw [← earned_resolveAlias, ht, earned, covers_unknown target ∅, Option.map_some]

theorem earned_anyOf_union {targets members : List Ty} {t : Ty}
    (ht : t.resolveAlias = .anyOf members) :
    earned (.anyOf targets) t = pairPoints members targets := by
  rw [earned, unify, ht]
  rfl

theorem takeAccepting_earned (t : Ty) (targets : List Ty) :
    (Slot.takeAccepting t ∅ (slots targets)).map (fun found => found.1.score) =
      targets.findSome? (earned · t) := by
  induction targets with
  | nil => rfl
  | cons target targets ih =>
      rw [slots, Slot.takeAccepting, List.findSome?_cons, earned]
      dsimp only
      cases unify target t ∅ with
      | some m => rfl
      | none =>
          rw [Option.map_none, ← ih, Option.map_map]
          rfl

-- A plain subject takes the first member that accepts it.
theorem earned_anyOf_plain {targets : List Ty} {t : Ty}
    (hplain : ∀ members, t.resolveAlias ≠ .anyOf members) (hknown : t.resolveAlias ≠ .unknown) :
    earned (.anyOf targets) t = targets.findSome? (earned · t) := by
  simp only [← earned_resolveAlias _ t, ← takeAccepting_earned]
  rw [earned_resolveAlias, earned, unify]
  split
  · exact absurd ‹_› hknown
  · exact absurd ‹_› (hplain _)
  · rw [Option.map_map]
    rfl

variable {params : List (TypeParam Ty)} {subject : Ty} {targets : List Ty}

-- What a subject earns in a target, if it matches.
def matchPoints (subject target : Ty) (params : List (TypeParam Ty)) : Option Nat :=
  (matchType subject target params).map Match.score

theorem matchPoints_eq (subject target : Ty) (params : List (TypeParam Ty)) :
    matchPoints subject target params = earned target subject := by
  rw [matchPoints, matchType, Option.map_map, earned]
  rfl

-- The same type, or a union of the same members in another order.
inductive Reordered (t : Ty) : Ty → Prop
  | same : Reordered t t
  | members {t' : Ty} {members members' : List Ty} : t.resolveAlias = .anyOf members →
      t'.resolveAlias = .anyOf members' → members'.Perm members → Reordered t t'

-- The order of members decides neither whether a subject matches a union nor what it earns.
def MatchesAsSet (subject : Ty) (targets : List Ty) (params : List (TypeParam Ty)) : Prop :=
  ∀ subject' targets', Reordered subject subject' → targets'.Perm targets →
    matchPoints subject' (.anyOf targets') params = matchPoints subject (.anyOf targets) params

def NeverMatches (subject : Ty) (targets : List Ty) (params : List (TypeParam Ty)) : Prop :=
  ∀ subject' targets', Reordered subject subject' → targets'.Perm targets →
    matchPoints subject' (.anyOf targets') params = none

theorem forall_reordered_iff {members : List Ty} (h : subject.resolveAlias = .anyOf members)
    {P : Option Nat → Prop} :
    (∀ subject' targets', Reordered subject subject' → targets'.Perm targets →
      P (matchPoints subject' (.anyOf targets') params)) ↔
    ∀ members' targets', members'.Perm members → targets'.Perm targets →
      P (pairPoints members' targets') := by
  constructor
  · intro hall members' targets' hmembers htargets
    have hreordered : Reordered subject (.anyOf members') := .members h rfl hmembers
    have hsame := hall (.anyOf members') targets' hreordered htargets
    rwa [matchPoints_eq, earned_anyOf_union rfl] at hsame
  · intro hall subject' targets' hreordered htargets
    obtain ⟨members', hmembers', hperm⟩ :
        ∃ members', subject'.resolveAlias = .anyOf members' ∧ members'.Perm members := by
      cases hreordered with
      | same => exact ⟨members, h, .refl _⟩
      | members hmembers hmembers' hperm =>
          obtain rfl : members = _ := Ty.anyOf.inj (h.symm.trans hmembers)
          exact ⟨_, hmembers', hperm⟩
    rw [matchPoints_eq, earned_anyOf_union hmembers']
    exact hall members' targets' hperm htargets

theorem matchesAsSet_of_union {members : List Ty} (h : subject.resolveAlias = .anyOf members) :
    MatchesAsSet subject targets params ↔ OrderIrrelevant pairPoints members targets := by
  have hwhole : matchPoints subject (.anyOf targets) params = pairPoints members targets := by
    rw [matchPoints_eq, earned_anyOf_union h]
  rw [MatchesAsSet, hwhole]
  exact forall_reordered_iff (P := (· = pairPoints members targets)) h

theorem matchesAsSet_of_plain (hplain : ∀ members, subject.resolveAlias ≠ .anyOf members) :
    MatchesAsSet subject targets params ↔ ∀ targets', targets'.Perm targets →
      earned (.anyOf targets') subject = earned (.anyOf targets) subject := by
  simp only [MatchesAsSet, matchPoints_eq]
  constructor
  · exact fun hsame targets' htargets => hsame subject targets' .same htargets
  · intro hsame subject' targets' hreordered htargets
    cases hreordered with
    | same => exact hsame targets' htargets
    | members hmembers => exact absurd hmembers (hplain _)

-- Every order of the members finds one that accepts a plain subject, if there is one, but it
-- earns what the first of them gives.
theorem earned_plain_isSome (hplain : ∀ members, subject.resolveAlias ≠ .anyOf members)
    {targets' : List Ty} (h : targets'.Perm targets) :
    (earned (.anyOf targets') subject).isSome ↔ (earned (.anyOf targets) subject).isSome := by
  by_cases hknown : subject.resolveAlias = .unknown
  · simp [earned_of_unknown _ hknown]
  · simp only [earned_anyOf_plain hplain hknown, List.findSome?_isSome_iff, h.mem_iff]

theorem matchesAsSet_plain_iff (hplain : ∀ members, subject.resolveAlias ≠ .anyOf members) :
    MatchesAsSet subject targets params ↔ ∀ x ∈ targets, ∀ y ∈ targets, ∀ p q,
      earned x subject = some p → earned y subject = some q → p = q := by
  rw [matchesAsSet_of_plain hplain]
  by_cases hknown : subject.resolveAlias = .unknown
  · simp [earned_of_unknown _ hknown]
  · simp only [earned_anyOf_plain hplain hknown]
    exact findSome?_perm_iff

-- A subject that is no union matches in every order or in none, and earns the same in every
-- order exactly if all members that accept it give it the same. Unions whose targets share no
-- parameter match as sets exactly if they never match, or if the members left over can exchange
-- the targets that they fit; where parameters are shared, settled members can exchange targets
-- that make the same demands.
theorem matchesAsSet_iff_exchangeable (subject : Ty) (targets : List Ty)
    (params : List (TypeParam Ty)) :
    ((∀ members, subject.resolveAlias ≠ .anyOf members) →
      (∀ targets', targets'.Perm targets →
        ((matchPoints subject (.anyOf targets') params).isSome ↔
          (matchPoints subject (.anyOf targets) params).isSome)) ∧
      (MatchesAsSet subject targets params ↔ ∀ x ∈ targets, ∀ y ∈ targets, ∀ p q,
        earned x subject = some p → earned y subject = some q → p = q)) ∧
    ∀ members, subject.resolveAlias = .anyOf members →
      (targets.Pairwise Apart →
        (MatchesAsSet subject targets params ↔ NeverMatches subject targets params ∨
          FirstFit.Exchangeable earned (members.diff targets) (targets.diff members))) ∧
      ((∀ t ∈ members, t.isSettled = true) →
        (∀ target ∈ targets.diff members, target.IsDirect) →
        FirstFit.Exchangeable demanded (members.diff targets) (targets.diff members) →
        MatchesAsSet subject targets params) := by
  refine ⟨fun hplain => ⟨fun targets' htargets => ?_, matchesAsSet_plain_iff hplain⟩,
    fun members hmembers => ⟨fun hapart => ?_, fun hsettled hdirect hexchange => ?_⟩⟩
  · rw [matchPoints_eq, matchPoints_eq]
    exact earned_plain_isSome hplain htargets
  · have hnever : NeverMatches subject targets params ↔ NoneInAnyOrder pairPoints members targets :=
      forall_reordered_iff (P := (· = none)) hmembers
    rw [matchesAsSet_of_union hmembers, hnever]
    exact pair_order_irrelevant_iff hapart
  · rw [matchesAsSet_of_union hmembers]
    exact pair_order_irrelevant_of_shared hsettled hdirect hexchange

end Subjects

namespace Listing

def params : List (TypeParam Ty) := [⟨"T", []⟩, ⟨"U", []⟩]

-- A type, or an array of it.
def orArray (t : Ty) : List Ty := [t, .unary .array t]

-- An array or an iterator of a type.
def arrayOrIterator (t : Ty) : List Ty := [.unary .array t, .unary .iterator t]

end Listing

open Listing in
-- All members have something to exchange in the second case, and nothing in the third, where
-- both targets demand the same of their parameter.
theorem listings_match_as_sets :
    MatchesAsSet (.unary .array .string) (arrayOrIterator (.param "T")) params ∧
    MatchesAsSet (.anyOf (orArray .string)) [.param "T", .param "U"] params ∧
    matchPoints (.anyOf (arrayOrIterator .string)) (.anyOf (arrayOrIterator (.param "T"))) params =
      some 2 ∧
    MatchesAsSet (.anyOf (arrayOrIterator .string)) (arrayOrIterator (.param "T")) params := by
  have hdisjoint : (arrayOrIterator .string).Disjoint (arrayOrIterator (.param "T")) := by
    simp [arrayOrIterator, string]
  have hdisjoint' : (orArray .string).Disjoint [.param "T", .param "U"] := by
    simp [orArray, string]
  refine ⟨?_, ?_, ?_, ?_⟩
  · refine ((matchesAsSet_iff_exchangeable _ _ params).1 (fun _ h => by cases h)).2.mpr ?_
    have harray : earned (.unary .array (.param "T")) (.unary .array .string) = some 1 := rfl
    have hiterator : earned (.unary .iterator (.param "T")) (.unary .array .string) = none := rfl
    simp [arrayOrIterator, harray, hiterator]
  · refine (((matchesAsSet_iff_exchangeable _ _ params).2 _ rfl).1 ?_).mpr (.inr ?_)
    · simp [Apart, paramNames]
    · rw [diff_of_disjoint hdisjoint', diff_of_disjoint hdisjoint'.symm]
      have hnothing (name : String) (t : Ty) (ht : t ∈ orArray .string) :
          earned (.param name) t = some 0 := by
        simp only [orArray, List.mem_cons, List.not_mem_nil, or_false] at ht
        obtain rfl | rfl := ht <;> rfl
      intro t ht u hu x hx y hy p q r hp hq hr
      simp only [List.mem_cons, List.not_mem_nil, or_false] at hx hy
      obtain rfl | rfl := hx <;> obtain rfl | rfl := hy <;> simp_all
  · rw [matchPoints_eq, earned_anyOf_union rfl, pairPoints_of_disjoint (by rfl) hdisjoint]
    rfl
  · refine ((matchesAsSet_iff_exchangeable _ _ params).2 _ rfl).2 ?_ ?_ ?_
    · simp [arrayOrIterator, isSettled, string]
    · rw [diff_of_disjoint hdisjoint.symm]
      simp [arrayOrIterator, IsDirect, isUnionFree, headNames]
    · rw [diff_of_disjoint hdisjoint, diff_of_disjoint hdisjoint.symm]
      have hother : demanded (.unary .array (.param "T")) (.unary .iterator .string) = none := rfl
      have hother' : demanded (.unary .iterator (.param "T")) (.unary .array .string) = none := rfl
      refine .of_unique ?_
      simp [arrayOrIterator, hother, hother']

open Listing in
-- An array that comes first takes the parameter, and nothing is left for the plain type. A plain
-- subject earns what it earns in the first member that accepts it.
theorem order_of_members_decides :
    matchPoints (.anyOf (orArray .string)) (.anyOf (orArray (.param "T"))) params = some 1 ∧
    matchPoints (.anyOf (orArray .string).reverse) (.anyOf (orArray (.param "T"))) params = none ∧
    ¬ MatchesAsSet (.anyOf (orArray .string)) (orArray (.param "T")) params ∧
    matchPoints .string (.anyOf [.string, .param "T"]) params = some 1 ∧
    matchPoints .string (.anyOf [.param "T", .string]) params = some 0 ∧
    ¬ MatchesAsSet .string [.string, .param "T"] params := by
  have hdisjoint : (orArray .string).Disjoint (orArray (.param "T")) := by
    simp [orArray, string]
  have hmatch :
      matchPoints (.anyOf (orArray .string)) (.anyOf (orArray (.param "T"))) params = some 1 := by
    rw [matchPoints_eq, earned_anyOf_union rfl, pairPoints_of_disjoint (by rfl) hdisjoint]
    rfl
  have hreversed : matchPoints (.anyOf (orArray .string).reverse) (.anyOf (orArray (.param "T")))
      params = none := by
    rw [matchPoints_eq, earned_anyOf_union rfl, pairPoints_of_disjoint (by rfl)
      (fun t ht => hdisjoint (List.mem_reverse.mp ht))]
    rfl
  refine ⟨hmatch, hreversed, fun hset => ?_, rfl, rfl, fun hset => ?_⟩
  · have hsame := hset (.anyOf (orArray .string).reverse) (orArray (.param "T"))
      (.members rfl rfl (List.reverse_perm _)) (.refl _)
    rw [hmatch, hreversed] at hsame
    cases hsame
  · have hsame := hset .string [.param "T", .string] .same (.swap _ _ _)
    cases hsame

end Ty

end Conformance
