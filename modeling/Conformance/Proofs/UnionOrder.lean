import Conformance.Proofs.FirstFit
import Conformance.Proofs.MatchedNames
import Mathlib.Data.List.Count
import Mathlib.Data.List.Perm.Lattice

namespace Conformance

-- Unions without names are meant to match as sets. The members that both have are struck out
-- first, and for the members left over the order can make a difference.

namespace Ty

-- What a subject earns in a target by itself, if it matches.
def earned (target t : Ty) : Option Nat := (unify target t ∅).map Match.score

-- What members that stand on both sides earn together.
def selfEarned : List Ty → Option Nat
  | [] => some 0
  | t :: ts => do
      let points ← earned t t
      let rest ← selfEarned ts
      return points + rest

theorem selfEarned_perm {ts ts' : List Ty} (h : ts.Perm ts') : selfEarned ts = selfEarned ts' := by
  induction h with
  | nil => rfl
  | cons t _ ih => rw [selfEarned, selfEarned, ih]
  | swap second first ts =>
      simp only [selfEarned]
      cases earned first first <;> cases earned second second <;> cases selfEarned ts <;>
        simp [Nat.add_left_comm]
  | trans _ _ ih ih' => exact ih.trans ih'

theorem slots_eq (targets : List Ty) :
    slots targets = targets.map fun target => ⟨target, unify target⟩ := by
  induction targets with
  | nil => rfl
  | cons target targets ih => rw [slots, ih, List.map_cons]

theorem length_slots (targets : List Ty) : (slots targets).length = targets.length := by
  simp [slots_eq]

namespace Slot

theorem takeIdentical_slots (t : Ty) (targets : List Ty) :
    takeIdentical t (slots targets) =
      if t ∈ targets then some (⟨t, unify t⟩, slots (targets.erase t)) else none := by
  induction targets with
  | nil => rfl
  | cons target targets ih =>
      rw [slots, takeIdentical]
      by_cases heq : target = t
      · simp [heq]
      · have hne : t ≠ target := fun h => heq h.symm
        rw [if_neg heq, ih]
        by_cases hmem : t ∈ targets
        · simp [hmem, List.erase_cons_tail, heq, slots]
        · simp [hmem, hne]

-- The members on both sides match themselves, one after the other, and the rest is what has
-- more members on one side.
theorem pairIdentical_slots {I : Substitution → List Ty → Prop} (members : List Ty)
    (hself : ∀ t ∈ members, ∀ targets s, t ∈ targets → I s targets →
      (unify t t s).map Match.score = earned t t ∧
        MatchKeeps (I · (targets.erase t)) (unify t t s))
    {targets : List Ty} {m : Match} (hm : I m.substitution targets) :
    (selfEarned (members.bagInter targets) = none ∧
      pairIdentical members (slots targets) m = none) ∨
    ∃ points found, selfEarned (members.bagInter targets) = some points ∧
      pairIdentical members (slots targets) m =
        some (members.diff targets, slots (targets.diff members), found) ∧
      found.score = m.score + points ∧ I found.substitution (targets.diff members) := by
  induction members generalizing targets m with
  | nil => exact .inr ⟨0, m, by simp [selfEarned], by simp [pairIdentical], rfl, by simpa using hm⟩
  | cons t members ih =>
      have hrest := fun u hu => hself u (List.mem_cons_of_mem _ hu)
      rw [pairIdentical, takeIdentical_slots]
      by_cases hmem : t ∈ targets
      · rw [if_pos hmem, List.cons_bagInter_of_mem _ hmem, List.cons_diff_of_mem hmem, selfEarned,
          List.diff_cons]
        obtain ⟨hscore, hkeeps⟩ := hself t List.mem_cons_self targets m.substitution hmem hm
        cases hfirst : unify t t m.substitution with
        | none =>
            rw [hfirst] at hscore
            exact .inl ⟨by simp [← hscore], by simp [hfirst]⟩
        | some first =>
            have hearned : earned t t = some first.score := by rw [← hscore, hfirst]; rfl
            rw [hearned]
            have hnext := @ih hrest (targets.erase t) (first.addScore m.score)
              (hkeeps first hfirst)
            obtain ⟨hnone, hpair⟩ | ⟨points, found, hpoints, hpair, hfound, hI⟩ := hnext
            · exact .inl ⟨by simp [hnone], by simp [hfirst, hpair]⟩
            · refine .inr ⟨first.score + points, found, by simp [hpoints], by simp [hfirst, hpair],
                ?_, hI⟩
              rw [hfound, Match.addScore, Nat.add_assoc]
      · rw [if_neg hmem, List.cons_bagInter_of_not_mem _ hmem, List.cons_diff_of_not_mem hmem,
          List.diff_cons, List.erase_of_not_mem hmem]
        obtain ⟨hnone, hpair⟩ | ⟨points, found, hpoints, hpair, hfound⟩ := ih hrest hm
        · exact .inl ⟨hnone, by simp [hpair]⟩
        · exact .inr ⟨points, found, hpoints, by simp [hpair], hfound⟩

-- What unions earn is what the struck-out members earn and what those left over earn.
theorem pair_slots {I : Substitution → List Ty → Prop} {members targets : List Ty}
    (hself : ∀ t ∈ members, ∀ targets s, t ∈ targets → I s targets →
      (unify t t s).map Match.score = earned t t ∧
        MatchKeeps (I · (targets.erase t)) (unify t t s))
    (hstart : I ∅ targets) (hlength : members.length = targets.length) {rest : Option Nat}
    (hrest : ∀ m : Match, I m.substitution (targets.diff members) →
      (pairGreedily (members.diff targets) (slots (targets.diff members)) m).map Match.score =
        rest.map (m.score + ·)) :
    (pair members (slots targets) ∅).map Match.score =
      (selfEarned (members.bagInter targets)).bind fun points => rest.map (points + ·) := by
  rw [pair, if_pos (by rw [length_slots, hlength])]
  have hstruck := @pairIdentical_slots I members hself targets ⟨∅, 0⟩ hstart
  obtain ⟨hnone, hpair⟩ | ⟨points, found, hpoints, hpair, hscore, hI⟩ := hstruck
  · rw [hpair, hnone]
    rfl
  · rw [hpair, hpoints]
    simp only [Option.bind_eq_bind, Option.bind_some, hrest found hI, hscore, Nat.zero_add]

end Slot

section Following

variable {M : Type} [AddCommMonoid M] (ok : M → Prop) [DecidablePred ok]
  (gain : Ty → Ty → Option M)

-- What was bound so far and what was earned so far, with the targets left over: they agree on
-- which of these targets accept which members, and still do after one more member is accepted.
structure Follows (score : M → Nat) (members : List Ty)
    (J : M → Substitution → List Ty → Prop) : Prop where
  accepts : ∀ {before s targets}, J before s targets → ∀ t ∈ members, ∀ target ∈ targets,
    ((unify target t s).isSome ↔ ∃ points, gain target t = some points ∧ ok (before + points))
  next : ∀ {before s targets target others}, J before s targets →
    targets.Perm (target :: others) → ∀ t ∈ members, ∀ m points, unify target t s = some m →
    gain target t = some points →
    J (before + points) m.substitution others ∧ score (before + points) = score before + m.score

variable {ok gain} {score : M → Nat} {members : List Ty} {J : M → Substitution → List Ty → Prop}

namespace Slot

theorem takeAccepting_follows {t : Ty} {s : Substitution} {before : M} {targets : List Ty}
    (haccepts : ∀ target ∈ targets, (unify target t s).isSome ↔
      ∃ points, gain target t = some points ∧ ok (before + points)) :
    (FirstFit.take ok gain before t targets = none ∧ takeAccepting t s (slots targets) = none) ∨
    ∃ target m points others, targets.Perm (target :: others) ∧ unify target t s = some m ∧
      gain target t = some points ∧
      FirstFit.take ok gain before t targets = some (before + points, others) ∧
      takeAccepting t s (slots targets) = some (m, slots others) := by
  induction targets with
  | nil => exact .inl ⟨rfl, rfl⟩
  | cons first targets ih =>
      have hfirst := haccepts first List.mem_cons_self
      rw [FirstFit.take, slots, takeAccepting]
      dsimp only
      cases haccept : unify first t s with
      | some m =>
          obtain ⟨points, hgain, hok⟩ := hfirst.mp (by rw [haccept]; rfl)
          have hfit : ((gain first t).filter fun points => ok (before + points)) = some points := by
            simp [hgain, Option.filter_some, hok]
          exact .inr ⟨first, m, points, targets, .refl _, haccept, hgain, by rw [hfit], rfl⟩
      | none =>
          have hnot : ((gain first t).filter fun points => ok (before + points)) = none := by
            rw [haccept] at hfirst
            simpa using hfirst
          rw [hnot]
          obtain ⟨hnone, htake⟩ | ⟨target, m, points, others, hperm, hm, hgain, hfit, htake⟩ :=
            ih fun target hmem => haccepts target (List.mem_cons_of_mem _ hmem)
          · exact .inl ⟨by simp [hnone], by simp [htake]⟩
          · refine .inr ⟨target, m, points, first :: others, ?_, hm, hgain, by simp [hfit], ?_⟩
            · exact (hperm.cons first).trans (List.Perm.swap _ _ _)
            · simp [htake, slots]

-- So the members left over take their targets by first fit.
theorem pairGreedily_follows (h : Follows ok gain score members J) {left targets : List Ty}
    (hleft : left ⊆ members) {before : M} {m : Match} (hJ : J before m.substitution targets)
    (hscore : score before = m.score) :
    (pairGreedily left (slots targets) m).map Match.score =
      (FirstFit.run ok gain before left targets).map score := by
  induction left generalizing targets before m with
  | nil => exact congrArg some hscore.symm
  | cons t left ih =>
      rw [List.cons_subset] at hleft
      rw [pairGreedily, FirstFit.run]
      obtain ⟨hnone, htake⟩ | ⟨target, found, points, others, hperm, hfound, hgain, hfit, htake⟩ :=
        takeAccepting_follows (h.accepts hJ t hleft.1)
      · rw [hnone, htake]
        rfl
      · obtain ⟨hnext, hsum⟩ := h.next hJ hperm t hleft.1 found points hfound hgain
        rw [hfit, htake]
        refine @ih others hleft.2 (before + points) (found.addScore m.score) hnext ?_
        rw [hsum, hscore, Match.addScore]

end Slot

end Following

section Apart

-- Types without a parameter in common.
def Apart (a b : Ty) : Prop := ∀ name ∈ a.paramNames, name ∉ b.paramNames

theorem Apart.symm {a b : Ty} (h : Apart a b) : Apart b a :=
  fun name hb ha => h name ha hb

-- Targets that share no parameter, and of whose parameters none is bound.
structure Untouched (s : Substitution) (targets : List Ty) : Prop where
  fresh : ∀ target ∈ targets, ∀ name ∈ target.paramNames, s.get? name = none
  apart : targets.Pairwise Apart

variable {s : Substitution} {targets others : List Ty} {target : Ty}

theorem untouched_empty (h : targets.Pairwise Apart) : Untouched ∅ targets :=
  ⟨fun _ _ _ _ => rfl, h⟩

theorem Untouched.score_eq (h : Untouched s targets) (hmem : target ∈ targets) (t : Ty) :
    (unify target t s).map Match.score = earned target t := by
  have hagree : s.AgreeOn target.paramNames ∅ := fun name hname => h.fresh target hmem name hname
  exact (unify_agree target (List.Subset.refl _) t hagree).score_eq

-- What a target binds, the others do not mention.
theorem Untouched.unify (h : Untouched s targets) (hperm : targets.Perm (target :: others))
    (t : Ty) : MatchKeeps (Untouched · others) (unify target t s) := by
  intro m hm
  obtain ⟨hfirst, hrest⟩ :=
    List.pairwise_cons.mp ((hperm.pairwise_iff fun h => Apart.symm h).mp h.apart)
  refine ⟨fun other hother name hname => ?_, hrest⟩
  have hfree : name ∉ target.paramNames := fun hmem => hfirst other hother name hmem hname
  have hunbound : s.get? name = none :=
    h.fresh other (hperm.mem_iff.mpr (List.mem_cons_of_mem _ hother)) name hname
  exact unify_keeps hereditary_true target (bindingKeeps_unbound hfree _) trivial hunbound m hm

-- Without parameters in common, what one member takes is no concern of the next.
theorem follows_untouched (members : List Ty) :
    Follows (fun _ : Nat => True) earned id members fun _ s targets => Untouched s targets where
  accepts h t _ target hmem := by
    rw [← h.score_eq hmem t]
    simp [Option.isSome_iff_exists]
  next h hperm t _ m points hm hpoints := by
    refine ⟨h.unify hperm t m hm, ?_⟩
    have hscore := h.score_eq (hperm.mem_iff.mpr List.mem_cons_self) t
    rw [hm, hpoints] at hscore
    obtain rfl : m.score = points := Option.some.inj hscore
    rfl

-- What members earn by first fit, if any goes with any.
def leftPoints (left rest : List Ty) : Option Nat :=
  FirstFit.run (fun _ : Nat => True) earned 0 left rest

theorem pair_untouched {members : List Ty} (hapart : targets.Pairwise Apart)
    (hlength : members.length = targets.length) :
    (Slot.pair members (slots targets) ∅).map Match.score =
      (selfEarned (members.bagInter targets)).bind fun points =>
        (leftPoints (members.diff targets) (targets.diff members)).map (points + ·) := by
  refine Slot.pair_slots (I := Untouched) (fun t _ targets s hmem hs => ?_)
    (untouched_empty hapart) hlength fun m hm => ?_
  · exact ⟨hs.score_eq hmem t, hs.unify (List.perm_cons_erase hmem) t⟩
  · have hshift : FirstFit.run (fun _ : Nat => True) earned (m.score + 0) (members.diff targets)
        (targets.diff members) =
          (leftPoints (members.diff targets) (targets.diff members)).map (m.score + ·) :=
      FirstFit.run_add (fun _ => Iff.rfl) 0 _ _
    rw [Slot.pairGreedily_follows (follows_untouched members) (List.diff_subset _ _) hm rfl,
      ← hshift, Nat.add_zero, Option.map_id]
    rfl

end Apart

section LeftOver

variable {members targets : List Ty}

theorem append_diff_append (common left rest : List Ty) :
    (common ++ left).diff (common ++ rest) = left.diff rest := by
  induction common with
  | nil => rfl
  | cons t common ih =>
      rw [List.cons_append, List.cons_append, List.cons_diff_of_mem List.mem_cons_self,
        List.erase_cons_head, ih]

theorem append_bagInter_append (common left rest : List Ty) :
    (common ++ left).bagInter (common ++ rest) = common ++ left.bagInter rest := by
  induction common with
  | nil => rfl
  | cons t common ih =>
      rw [List.cons_append, List.cons_append, List.cons_bagInter_of_mem _ List.mem_cons_self,
        List.erase_cons_head, ih, List.cons_append]

theorem diff_of_disjoint {left rest : List Ty} (h : left.Disjoint rest) :
    left.diff rest = left := by
  induction left with
  | nil => simp
  | cons t left ih =>
      rw [List.disjoint_cons_left] at h
      rw [List.cons_diff_of_not_mem h.1, ih h.2]

-- Nothing is left over on both sides.
theorem disjoint_diff (members targets : List Ty) :
    (members.diff targets).Disjoint (targets.diff members) := by
  intro t hleft hrest
  rw [← List.count_pos_iff, List.count_diff] at hleft hrest
  omega

theorem struck_members (members targets : List Ty) :
    (members.bagInter targets ++ members.diff targets).Perm members := by
  rw [List.perm_iff_count]
  intro t
  rw [List.count_append, List.count_bagInter, List.count_diff]
  omega

theorem struck_targets (members targets : List Ty) :
    (members.bagInter targets ++ targets.diff members).Perm targets := by
  rw [List.perm_iff_count]
  intro t
  rw [List.count_append, List.count_bagInter, List.count_diff]
  omega

theorem length_diff_eq (h : members.length = targets.length) :
    (members.diff targets).length = (targets.diff members).length := by
  have hmembers := (struck_members members targets).length_eq
  have htargets := (struck_targets members targets).length_eq
  rw [List.length_append] at hmembers htargets
  omega

-- Any order of what is left over is that of some order of the whole.
theorem exists_order {left rest : List Ty} (hleft : left.Perm (members.diff targets))
    (hrest : rest.Perm (targets.diff members)) :
    ∃ members' targets' : List Ty, members'.Perm members ∧ targets'.Perm targets ∧
      members'.bagInter targets' = members.bagInter targets ∧
      members'.diff targets' = left ∧ targets'.diff members' = rest := by
  have hdisjoint : left.Disjoint rest := fun t ht ht' =>
    disjoint_diff members targets (hleft.subset ht) (hrest.subset ht')
  refine ⟨members.bagInter targets ++ left, members.bagInter targets ++ rest,
    (hleft.append_left _).trans (struck_members members targets),
    (hrest.append_left _).trans (struck_targets members targets), ?_, ?_, ?_⟩
  · rw [append_bagInter_append, List.bagInter_eq_nil_iff_disjoint.mpr hdisjoint, List.append_nil]
  · rw [append_diff_append, diff_of_disjoint hdisjoint]
  · rw [append_diff_append, diff_of_disjoint hdisjoint.symm]

end LeftOver

section Orders

variable {members targets : List Ty}

-- What two unions earn, if they match.
def pairPoints (members targets : List Ty) : Option Nat :=
  (Slot.pair members (slots targets) ∅).map Match.score

-- If nothing is struck out, all members take the first target that accepts them.
theorem pairPoints_of_disjoint (hlength : members.length = targets.length)
    (h : members.Disjoint targets) : pairPoints members targets =
      (Slot.pairGreedily members (slots targets) ⟨∅, 0⟩).map Match.score := by
  have hleft : Slot.pairIdentical members (slots targets) ⟨∅, 0⟩ =
      some (members, slots targets, ⟨∅, 0⟩) := by
    clear hlength
    induction members with
    | nil => rfl
    | cons t members ih =>
        rw [List.disjoint_cons_left] at h
        rw [Slot.pairIdentical, Slot.takeIdentical_slots, if_neg h.1, ih h.2]
        rfl
  rw [pairPoints, Slot.pair, length_slots, if_pos hlength, hleft]
  rfl

theorem noneInAnyOrder_of_length_ne (h : members.length ≠ targets.length) :
    NoneInAnyOrder pairPoints members targets := by
  intro members' targets' hmembers htargets
  rw [← hmembers.length_eq, ← htargets.length_eq] at h
  rw [pairPoints, Slot.pair, length_slots, if_neg h]
  rfl

theorem orderIrrelevant_of_leftOver {answer leftAnswer : List Ty → List Ty → Option Nat}
    {struck : Option Nat}
    (h : ∀ members' targets', members'.Perm members → targets'.Perm targets →
      answer members' targets' = struck.bind fun points =>
        (leftAnswer (members'.diff targets') (targets'.diff members')).map (points + ·))
    (hsame : OrderIrrelevant leftAnswer (members.diff targets) (targets.diff members)) :
    OrderIrrelevant answer members targets := by
  intro members' targets' hm ht
  rw [h members' targets' hm ht, h members targets (.refl _) (.refl _),
    hsame _ _ (hm.diff ht) (ht.diff hm)]

-- If the struck-out members match, the answer about two unions is that about the members left
-- over, up to what the struck-out members earn.
theorem order_of_leftOver {answer leftAnswer : List Ty → List Ty → Option Nat} {points : Nat}
    (h : ∀ members' targets', members'.Perm members → targets'.Perm targets →
      answer members' targets' =
        (leftAnswer (members'.diff targets') (targets'.diff members')).map (points + ·)) :
    (OrderIrrelevant answer members targets ↔
      OrderIrrelevant leftAnswer (members.diff targets) (targets.diff members)) ∧
    (NoneInAnyOrder answer members targets ↔
      NoneInAnyOrder leftAnswer (members.diff targets) (targets.diff members)) := by
  have hwhole := h members targets (.refl _) (.refl _)
  have hpart {left rest : List Ty} (hleft : left.Perm (members.diff targets))
      (hrest : rest.Perm (targets.diff members)) :
      ∃ members' targets', members'.Perm members ∧ targets'.Perm targets ∧
        answer members' targets' = (leftAnswer left rest).map (points + ·) := by
    obtain ⟨members', targets', hmembers, htargets, -, rfl, rfl⟩ := exists_order hleft hrest
    exact ⟨members', targets', hmembers, htargets, h members' targets' hmembers htargets⟩
  have hinj : Function.Injective (Option.map (points + ·)) :=
    Option.map_injective fun _ _ => Nat.add_left_cancel
  refine ⟨⟨fun hsame left rest hleft hrest => ?_, fun hsame members' targets' hm ht => ?_⟩,
    ⟨fun hnone left rest hleft hrest => ?_, fun hnone members' targets' hm ht => ?_⟩⟩
  · obtain ⟨members', targets', hm, ht, hanswer⟩ := hpart hleft hrest
    apply hinj
    rw [← hanswer, hsame members' targets' hm ht, hwhole]
  · rw [h members' targets' hm ht, hwhole, hsame _ _ (hm.diff ht) (ht.diff hm)]
  · obtain ⟨members', targets', hm, ht, hanswer⟩ := hpart hleft hrest
    rw [hnone members' targets' hm ht] at hanswer
    exact Option.map_eq_none_iff.mp hanswer.symm
  · rw [h members' targets' hm ht, hnone _ _ (hm.diff ht) (ht.diff hm), Option.map_none]

-- The order of unions makes no difference exactly if that of the members left over makes none.
theorem pair_order_irrelevant_iff (hapart : targets.Pairwise Apart) :
    OrderIrrelevant pairPoints members targets ↔ NoneInAnyOrder pairPoints members targets ∨
      FirstFit.Exchangeable earned (members.diff targets) (targets.diff members) := by
  by_cases hlength : members.length = targets.length
  · have hpair (members' targets' : List Ty) (hmembers : members'.Perm members)
        (htargets : targets'.Perm targets) : pairPoints members' targets' =
          (selfEarned (members.bagInter targets)).bind fun points =>
            (leftPoints (members'.diff targets') (targets'.diff members')).map (points + ·) := by
      rw [← selfEarned_perm (hmembers.bagInter htargets)]
      refine pair_untouched ((htargets.pairwise_iff fun h => Apart.symm h).mpr hapart) ?_
      rw [hmembers.length_eq, htargets.length_eq, hlength]
    cases hstruck : selfEarned (members.bagInter targets) with
    | none =>
        have hnone : NoneInAnyOrder pairPoints members targets :=
          fun members' targets' hmembers htargets => by
            rw [hpair members' targets' hmembers htargets, hstruck, Option.bind_none]
        exact ⟨fun _ => .inl hnone, fun _ => hnone.orderIrrelevant⟩
    | some points =>
        simp only [hstruck, Option.bind_some] at hpair
        obtain ⟨hsame, hnone⟩ := order_of_leftOver hpair
        rw [hsame, hnone]
        exact FirstFit.run_order_irrelevant_iff (fun _ => trivial) (length_diff_eq hlength)
  · have hnone := noneInAnyOrder_of_length_ne hlength
    exact ⟨fun _ => .inl hnone, fun _ => hnone.orderIrrelevant⟩

end Orders

end Ty

end Conformance
