import Conformance.Overload
import Mathlib.Data.Bool.Basic
import Mathlib.Data.List.Nodup
import Mathlib.Data.Prod.Lex
import Mathlib.Logic.Equiv.Basic

namespace Conformance

-- Of the functions of one name a call takes the one whose rank is above the ranks of all others
-- that accept the arguments, in whatever order they were declared.

namespace Rank

-- A higher score comes first, then a function without parameters of its own, then the more
-- specific signature.
def key (rank : Rank) : ℕ ×ₗ Bool ×ₗ ℕ :=
  toLex (rank.score, toLex (rank.isPlain, rank.specificity))

theorem key_injective : Function.Injective key := by
  rintro ⟨score, isPlain, specificity⟩ ⟨score', isPlain', specificity'⟩ h
  simpa [key] using h

instance : LinearOrder Rank := LinearOrder.lift' key key_injective

theorem lt_iff {a b : Rank} : a < b ↔ a.score < b.score ∨ a.score = b.score ∧
    (a.isPlain < b.isPlain ∨ a.isPlain = b.isPlain ∧ a.specificity < b.specificity) :=
  Prod.Lex.lt_iff.trans (or_congr_right (and_congr_right' Prod.Lex.lt_iff))

theorem compare_eq_gt_iff {a b : Rank} : a.compare b = .gt ↔ b < a := by
  have hplain : Ord.compare a.isPlain.toNat b.isPlain.toNat = .gt ↔ b.isPlain < a.isPlain := by
    cases a.isPlain <;> cases b.isPlain <;> decide
  have hsame : Ord.compare a.isPlain.toNat b.isPlain.toNat = .eq ↔ b.isPlain = a.isPlain := by
    cases a.isPlain <;> cases b.isPlain <;> decide
  rw [compare, lt_iff, Ordering.then_eq_gt, Ordering.then_eq_gt, hplain, hsame,
    Nat.compare_eq_gt, Nat.compare_eq_gt, Nat.compare_eq_eq, @eq_comm _ b.score]

end Rank

namespace CallCandidate

theorem perm_insertRanked (candidate : CallCandidate) (candidates : List CallCandidate) :
    (insertRanked candidate candidates).Perm (candidate :: candidates) := by
  induction candidates with
  | nil => exact .refl _
  | cons first rest ih =>
      rw [insertRanked]
      split
      · exact (ih.cons first).trans (.swap candidate first rest)
      · exact .refl _

theorem perm_ranked (candidates : List CallCandidate) : (ranked candidates).Perm candidates := by
  induction candidates with
  | nil => exact .refl _
  | cons candidate candidates ih =>
      exact (perm_insertRanked candidate (ranked candidates)).trans (ih.cons candidate)

-- No candidate stands before one that ranks above it.
def Descending (candidates : List CallCandidate) : Prop :=
  candidates.Pairwise fun a b => b.rank ≤ a.rank

theorem descending_insertRanked (candidate : CallCandidate) {candidates : List CallCandidate}
    (h : Descending candidates) : Descending (insertRanked candidate candidates) := by
  induction candidates with
  | nil => exact List.pairwise_singleton _ _
  | cons first rest ih =>
      obtain ⟨hfirst, hrest⟩ := List.pairwise_cons.mp h
      rw [insertRanked]
      split
      · rename_i hgt
        refine List.pairwise_cons.mpr ⟨fun other hother => ?_, ih hrest⟩
        rcases List.mem_cons.mp ((perm_insertRanked candidate rest).mem_iff.mp hother) with
          rfl | hother
        · exact (Rank.compare_eq_gt_iff.mp hgt).le
        · exact hfirst other hother
      · rename_i hgt
        have hle : first.rank ≤ candidate.rank :=
          not_lt.mp fun hlt => hgt (Rank.compare_eq_gt_iff.mpr hlt)
        refine List.pairwise_cons.mpr ⟨fun other hother => ?_, h⟩
        rcases List.mem_cons.mp hother with rfl | hother
        · exact hle
        · exact (hfirst other hother).trans hle

theorem descending_ranked (candidates : List CallCandidate) : Descending (ranked candidates) := by
  induction candidates with
  | nil => exact List.Pairwise.nil
  | cons candidate candidates ih => exact descending_insertRanked candidate ih

-- The choice of a candidate.
def selection (candidate : CallCandidate) : Selection where
  index := candidate.index
  function := candidate.sig.substitute candidate.found.substitution
  substitution := candidate.found.substitution
  score := candidate.found.score

end CallCandidate

-- The same candidate and the same choice, with the overload in another place.
def CallCandidate.move (places : Equiv.Perm ℕ) (candidate : CallCandidate) : CallCandidate :=
  { candidate with index := places candidate.index }

def Selection.move (places : Equiv.Perm ℕ) (selection : Selection) : Selection :=
  { selection with index := places selection.index }

theorem CallCandidate.exists_move (places : Equiv.Perm ℕ) (candidate : CallCandidate) :
    ∃ before : CallCandidate, before.move places = candidate :=
  ⟨candidate.move places.symm, by simp [move]⟩

-- How a call of a name is decided among the candidates that accept it.
inductive Decides (name : String) (accepts : CallCandidate → Prop) :
    Except Problem Selection → Prop
  | single (best : CallCandidate) (haccepts : accepts best)
      (habove : ∀ other, accepts other → other.index ≠ best.index → other.rank < best.rank) :
      Decides name accepts (.ok best.selection)
  | shared {a b : CallCandidate} (ha : accepts a) (hb : accepts b) (hne : a.index ≠ b.index)
      (hrank : a.rank = b.rank) (htop : ∀ other, accepts other → other.rank ≤ a.rank) :
      Decides name accepts (.error (.ambiguousOverload name))
  | nobody (hnone : ∀ candidate, ¬ accepts candidate) :
      Decides name accepts (.error (.noMatchingOverload name))

namespace Decides

variable {name : String} {accepts : CallCandidate → Prop} {result : Except Problem Selection}

-- A rank that is shared is above no other candidate of that rank.
theorem not_single_of_shared {a b best : CallCandidate} (ha : accepts a) (hb : accepts b)
    (hne : a.index ≠ b.index) (hrank : a.rank = b.rank)
    (htop : ∀ other, accepts other → other.rank ≤ a.rank) (hbest : accepts best) :
    ¬ ∀ other, accepts other → other.index ≠ best.index → other.rank < best.rank := by
  intro habove
  have hle := htop best hbest
  by_cases hindex : a.index = best.index
  · have hlt := habove b hb (hindex ▸ hne.symm)
    rw [← hrank] at hlt
    exact hlt.not_ge hle
  · exact (habove a ha hindex).not_ge hle

-- At most one decision fits, as long as an overload is a candidate in one way only.
theorem eq (hindex : ∀ a b, accepts a → accepts b → a.index = b.index → a = b)
    {result' : Except Problem Selection} (h : Decides name accepts result)
    (h' : Decides name accepts result') : result = result' := by
  cases h with
  | single best hbest habove =>
      cases h' with
      | single best' hbest' habove' =>
          by_cases hsame : best'.index = best.index
          · rw [hindex _ _ hbest' hbest hsame]
          · exact absurd (habove _ hbest' hsame) (habove' _ hbest (Ne.symm hsame)).not_gt
      | shared ha hb hne hrank htop =>
          exact absurd habove (not_single_of_shared ha hb hne hrank htop hbest)
      | nobody hnone => exact absurd hbest (hnone _)
  | shared ha hb hne hrank htop =>
      cases h' with
      | single _ hbest habove =>
          exact absurd habove (not_single_of_shared ha hb hne hrank htop hbest)
      | shared => rfl
      | nobody hnone => exact absurd ha (hnone _)
  | nobody hnone =>
      cases h' with
      | single _ hbest => exact absurd hbest (hnone _)
      | shared ha => exact absurd ha (hnone _)
      | nobody => rfl

theorem ok_iff {selection : Selection} : Decides name accepts (.ok selection) ↔
    ∃ best, accepts best ∧
      (∀ other, accepts other → other.index ≠ best.index → other.rank < best.rank) ∧
      best.selection = selection := by
  constructor
  · rintro ⟨best, hbest, habove⟩
    exact ⟨best, hbest, habove, rfl⟩
  · rintro ⟨best, hbest, habove, rfl⟩
    exact .single best hbest habove

theorem ambiguous_iff : Decides name accepts (.error (.ambiguousOverload name)) ↔
    ∃ a b, accepts a ∧ accepts b ∧ a.index ≠ b.index ∧ a.rank = b.rank ∧
      ∀ other, accepts other → other.rank ≤ a.rank := by
  constructor
  · intro h
    cases h with
    | shared ha hb hne hrank htop => exact ⟨_, _, ha, hb, hne, hrank, htop⟩
  · rintro ⟨a, b, ha, hb, hne, hrank, htop⟩
    exact .shared ha hb hne hrank htop

theorem noMatching_iff : Decides name accepts (.error (.noMatchingOverload name)) ↔
    ∀ candidate, ¬ accepts candidate := by
  constructor
  · intro h
    cases h with
    | nobody hnone => exact hnone
  · exact .nobody

-- Only the place of the choice depends on where the overloads stand.
theorem move {places : Equiv.Perm ℕ} {accepts' : CallCandidate → Prop}
    (hplaces : ∀ candidate, accepts (candidate.move places) ↔ accepts' candidate)
    (h : Decides name accepts' result) : Decides name accepts (result.map (·.move places)) := by
  cases h with
  | single best hbest habove =>
      refine .single (best.move places) ((hplaces best).mpr hbest) fun other hother hne => ?_
      obtain ⟨before, rfl⟩ := other.exists_move places
      exact habove before ((hplaces before).mp hother) fun heq => hne (congrArg places heq)
  | @shared a b ha hb hne hrank htop =>
      refine .shared ((hplaces a).mpr ha) ((hplaces b).mpr hb)
        (fun heq => hne (places.injective heq)) hrank fun other hother => ?_
      obtain ⟨before, rfl⟩ := other.exists_move places
      exact htop before ((hplaces before).mp hother)
  | nobody hnone =>
      refine .nobody fun candidate hcandidate => ?_
      obtain ⟨before, rfl⟩ := candidate.exists_move places
      exact hnone before ((hplaces before).mp hcandidate)

end Decides

-- Whether an argument is matched with its parameter, so that it may bind type parameters.
def Ty.isMatchedWith (param arg : Ty) : Bool := param.usesParams && !arg.isUnknown

def matchedPairs (params args : List Ty) : List (Ty × Ty) :=
  (params.zip args).filter fun pair => pair.1.isMatchedWith pair.2

theorem matchedPairs_cons (param arg : Ty) (params args : List Ty) :
    matchedPairs (param :: params) (arg :: args) =
      if param.isMatchedWith arg then (param, arg) :: matchedPairs params args
      else matchedPairs params args := by
  rw [matchedPairs, List.zip_cons_cons, List.filter_cons]
  rfl

namespace Resolver

variable {r : Resolver} {name : String} {sigs : List (Signature Ty)} {args : List Ty}

section Arguments

variable {param arg : Ty} {s : Substitution}

theorem accept?_matched (h : param.isMatchedWith arg = true) :
    r.accept? param arg s = (Ty.unify param arg s).map fun found => ⟨found.substitution, 1⟩ := by
  rw [Ty.isMatchedWith, Bool.and_eq_true, Bool.not_eq_true'] at h
  rw [accept?, h.2, h.1, if_neg Bool.false_ne_true, if_pos rfl]

-- All other arguments leave the substitution as it is.
theorem accept?_unmatched (h : param.isMatchedWith arg = false) {m : Match}
    (hm : r.accept? param arg s = some m) : m.substitution = s := by
  rw [accept?] at hm
  split_ifs at hm with hunknown huses hassigns hnullable
  · rw [← Option.some.inj hm]
  · simp [Ty.isMatchedWith, hunknown, huses] at h
  · rw [← Option.some.inj hm]
  · rw [← Option.some.inj hm]
  · split at hm
    · split at hm
      · rw [← Option.some.inj hm]
      · cases hm
    · cases hm

theorem accept?_cases {m : Match} (h : r.accept? param arg s = some m) :
    (param.isMatchedWith arg = true ∧
      ∃ found, Ty.unify param arg s = some found ∧ found.substitution = m.substitution) ∨
    (param.isMatchedWith arg = false ∧ m.substitution = s) := by
  cases hmatched : param.isMatchedWith arg with
  | true =>
      rw [accept?_matched hmatched] at h
      obtain ⟨found, hfound, rfl⟩ := Option.map_eq_some_iff.mp h
      exact .inl ⟨rfl, found, hfound, rfl⟩
  | false => exact .inr ⟨rfl, accept?_unmatched hmatched h⟩

end Arguments

-- A candidate is an overload in its place that accepts the arguments.
structure Accepts (r : Resolver) (name : String) (sigs : List (Signature Ty)) (args : List Ty)
    (candidate : CallCandidate) : Prop where
  declared : sigs[candidate.index]? = some candidate.sig
  applies : r.applies? name candidate.sig args = some candidate.found

theorem Accepts.eq_of_index {a b : CallCandidate} (ha : r.Accepts name sigs args a)
    (hb : r.Accepts name sigs args b) (h : a.index = b.index) : a = b := by
  obtain ⟨index, sig, found⟩ := a
  obtain ⟨index', sig', found'⟩ := b
  obtain rfl : index = index' := h
  obtain rfl : sig = sig' := Option.some.inj (ha.declared.symm.trans hb.declared)
  obtain rfl : found = found' := Option.some.inj (ha.applies.symm.trans hb.applies)
  rfl

theorem mem_callCandidates {candidate : CallCandidate} :
    candidate ∈ r.callCandidates name sigs args ↔ r.Accepts name sigs args candidate := by
  rw [callCandidates, List.mem_filterMap]
  constructor
  · rintro ⟨⟨sig, index⟩, hmem, h⟩
    obtain ⟨found, hfound, rfl⟩ := Option.map_eq_some_iff.mp h
    exact ⟨List.mem_zipIdx_iff_getElem?.mp hmem, hfound⟩
  · rintro ⟨hdeclared, happlies⟩
    exact ⟨(candidate.sig, candidate.index), List.mem_zipIdx_iff_getElem?.mpr hdeclared,
      Option.map_eq_some_iff.mpr ⟨candidate.found, happlies, rfl⟩⟩

theorem nodup_callCandidates (r : Resolver) (name : String) (sigs : List (Signature Ty))
    (args : List Ty) : ((r.callCandidates name sigs args).map CallCandidate.index).Nodup := by
  have hplaces : (sigs.zipIdx.map Prod.snd).Nodup := by
    rw [List.zipIdx_map_snd]
    exact List.nodup_range'
  refine List.pairwise_map.mpr ((List.pairwise_map.mp hplaces).filterMap _ ?_)
  rintro ⟨sig, index⟩ ⟨sig', index'⟩ hne a ha b hb
  obtain ⟨found, -, rfl⟩ := Option.map_eq_some_iff.mp ha
  obtain ⟨found', -, rfl⟩ := Option.map_eq_some_iff.mp hb
  exact hne

theorem decides_selectOverload (r : Resolver) (name : String) (sigs : List (Signature Ty))
    (args : List Ty) :
    Decides name (r.Accepts name sigs args) (r.selectOverload name sigs args) := by
  have hperm := CallCandidate.perm_ranked (r.callCandidates name sigs args)
  have hdescending := CallCandidate.descending_ranked (r.callCandidates name sigs args)
  have hnodup := (hperm.map CallCandidate.index).nodup_iff.mpr
    (nodup_callCandidates r name sigs args)
  have haccepts (candidate : CallCandidate) :=
    (hperm.mem_iff (a := candidate)).trans mem_callCandidates
  rw [selectOverload]
  generalize CallCandidate.ranked (r.callCandidates name sigs args) = order at *
  cases order with
  | nil => exact .nobody fun candidate h => by simpa using (haccepts candidate).mpr h
  | cons best others =>
      obtain ⟨hbest, hothers⟩ := List.pairwise_cons.mp hdescending
      obtain ⟨hapart, -⟩ := List.pairwise_cons.mp hnodup
      have hmem := (haccepts best).mp List.mem_cons_self
      have htop (other : CallCandidate) (h : r.Accepts name sigs args other) :
          other.rank ≤ best.rank := by
        rcases List.mem_cons.mp ((haccepts other).mpr h) with rfl | hother
        · exact le_rfl
        · exact hbest other hother
      dsimp only
      cases others with
      | nil =>
          refine .single best hmem fun other h hne => absurd ?_ hne
          rw [List.mem_singleton.mp ((haccepts other).mpr h)]
      | cons second rest =>
          have hsecond := (haccepts second).mp (List.mem_cons_of_mem _ List.mem_cons_self)
          obtain ⟨hafter, -⟩ := List.pairwise_cons.mp hothers
          by_cases hrank : second.rank = best.rank
          · simp only [List.head?_cons, Option.any_some, hrank, decide_true, if_true]
            exact .shared hmem hsecond (hapart _ (by simp)) hrank.symm htop
          · simp only [List.head?_cons, Option.any_some, hrank, decide_false,
              if_neg Bool.false_ne_true]
            refine .single best hmem fun other h hne => ?_
            have hlt : second.rank < best.rank := (htop second hsecond).lt_of_ne hrank
            rcases List.mem_cons.mp ((haccepts other).mpr h) with rfl | hother
            · exact absurd rfl hne
            · rcases List.mem_cons.mp hother with rfl | hother
              · exact hlt
              · exact (hafter other hother).trans_lt hlt

theorem selectOverload_eq_iff {result : Except Problem Selection} :
    r.selectOverload name sigs args = result ↔
      Decides name (r.Accepts name sigs args) result := by
  constructor
  · rintro rfl
    exact r.decides_selectOverload name sigs args
  · exact (r.decides_selectOverload name sigs args).eq fun _ _ => Accepts.eq_of_index

theorem forall_not_accepts : (∀ candidate, ¬ r.Accepts name sigs args candidate) ↔
    ∀ sig ∈ sigs, r.applies? name sig args = none := by
  constructor
  · intro hnone sig hsig
    obtain ⟨index, hindex⟩ := List.getElem?_of_mem hsig
    refine Option.eq_none_iff_forall_ne_some.mpr fun found hfound => ?_
    exact hnone ⟨index, sig, found⟩ ⟨hindex, hfound⟩
  · intro h candidate hcandidate
    have hnone := h candidate.sig (List.mem_of_getElem? hcandidate.declared)
    rw [hcandidate.applies] at hnone
    cases hnone

end Resolver

-- An overload set says what is decided about each call, and nothing else does: a unique best rank
-- is taken, a best rank that is shared is ambiguous, and without a candidate nothing matches. In
-- another order of the overloads the same one is taken in its new place.
theorem overload_choice_exact (r : Resolver) (name : String) (sigs : List (Signature Ty))
    (args : List Ty) :
    (∀ selection, r.call name (.overload sigs) args = .ok selection ↔
      ∃ best, r.Accepts name sigs args best ∧
        (∀ other, r.Accepts name sigs args other → other.index ≠ best.index →
          other.rank < best.rank) ∧ best.selection = selection) ∧
    (r.call name (.overload sigs) args = .error (.ambiguousOverload name) ↔
      ∃ a b, r.Accepts name sigs args a ∧ r.Accepts name sigs args b ∧ a.index ≠ b.index ∧
        a.rank = b.rank ∧ ∀ other, r.Accepts name sigs args other → other.rank ≤ a.rank) ∧
    (r.call name (.overload sigs) args = .error (.noMatchingOverload name) ↔
      ∀ sig ∈ sigs, r.applies? name sig args = none) ∧
    ∀ (places : Equiv.Perm ℕ) (sigs' : List (Signature Ty)),
      (∀ i, sigs'[i]? = sigs[places i]?) →
        (r.call name (.overload sigs') args).map (·.move places) =
          r.call name (.overload sigs) args := by
  refine ⟨fun selection => Resolver.selectOverload_eq_iff.trans Decides.ok_iff,
    Resolver.selectOverload_eq_iff.trans Decides.ambiguous_iff,
    Resolver.selectOverload_eq_iff.trans (Decides.noMatching_iff.trans Resolver.forall_not_accepts),
    fun places sigs' hplaces => (Resolver.selectOverload_eq_iff.mpr ?_).symm⟩
  refine (r.decides_selectOverload name sigs' args).move fun candidate => ?_
  exact ⟨fun h => ⟨(hplaces _).trans h.declared, h.applies⟩,
    fun h => ⟨(hplaces _).symm.trans h.declared, h.applies⟩⟩

namespace Lengths

def resolver : Resolver := ⟨∅, ∅, {}⟩

-- Any type, arrays of any type, and arrays of texts with an optional limit.
def overloads : List (Signature Ty) :=
  [⟨[⟨"T", []⟩], [.param "T"], .string, []⟩,
    ⟨[⟨"T", []⟩], [.unary .array (.param "T")], .param "T", []⟩,
    .plain [.unary .array .string, .nullable .string] .nil]

end Lengths

open Lengths in
-- All three overloads accept an array of texts. The last one is best, also as the first one.
theorem lengths_rearranged :
    (∀ i, [overloads[2], overloads[1], overloads[0]][i]? = overloads[Equiv.swap 0 2 i]?) ∧
      (resolver.callCandidates "length" overloads [.unary .array .string]).length = 3 ∧
      resolver.call "length" (.overload overloads) [.unary .array .string] =
        .ok ⟨2, overloads[2], ∅, 2⟩ ∧
      (resolver.call "length" (.overload [overloads[2], overloads[1], overloads[0]])
        [.unary .array .string]).map (·.move (Equiv.swap 0 2)) =
          resolver.call "length" (.overload overloads) [.unary .array .string] := by
  have hplaces : ∀ i, [overloads[2], overloads[1], overloads[0]][i]? =
      overloads[Equiv.swap 0 2 i]? := by
    rintro (_ | _ | _ | i)
    · rfl
    · rfl
    · rfl
    · rw [Equiv.swap_apply_of_ne_of_ne (by omega) (by omega)]
      rfl
  exact ⟨hplaces, by decide +kernel, by decide +kernel,
    (overload_choice_exact resolver "length" overloads _).2.2.2 _ _ hplaces⟩

end Conformance
