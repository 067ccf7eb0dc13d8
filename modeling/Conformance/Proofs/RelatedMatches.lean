import Conformance.Ty.Matching

namespace Conformance

-- What members of unions take depends on what is bound so far only through what the targets
-- accept. So a relation between substitutions that every target keeps is kept by whole unions.

-- Both fail, or both earn the same with related substitutions.
def MatchesRelated (R : Substitution → Substitution → Prop) : Option Match → Option Match → Prop :=
  Option.Rel fun m m' => R m.substitution m'.substitution ∧ m.score = m'.score

variable {R : Substitution → Substitution → Prop}

namespace MatchesRelated

variable {found found' : Option Match}

theorem none : MatchesRelated R none none := Option.Rel.none

theorem some {s s' : Substitution} (hs : R s s') (score : Nat) :
    MatchesRelated R (some ⟨s, score⟩) (some ⟨s', score⟩) :=
  Option.Rel.some ⟨hs, rfl⟩

theorem score_eq (h : MatchesRelated R found found') :
    found.map Match.score = found'.map Match.score := by
  cases h with
  | none => rfl
  | some h => exact congrArg Option.some h.2

end MatchesRelated

namespace Ty

namespace Slot

theorem takeIdentical_subset {subject : Ty} {slots others : List Slot} {slot : Slot}
    (h : takeIdentical subject slots = some (slot, others)) : slot ∈ slots ∧ others ⊆ slots := by
  induction slots generalizing others with
  | nil => simp [takeIdentical] at h
  | cons first rest ih =>
      rw [takeIdentical] at h
      split at h
      · obtain ⟨rfl, rfl⟩ : first = slot ∧ rest = others := by simpa using h
        exact ⟨List.mem_cons_self, List.subset_cons_self _ _⟩
      · obtain ⟨⟨found, left⟩, hfound, heq⟩ := Option.map_eq_some_iff.mp h
        obtain ⟨rfl, rfl⟩ : found = slot ∧ first :: left = others := by simpa using heq
        obtain ⟨hmem, hsub⟩ := ih hfound
        exact ⟨List.mem_cons_of_mem _ hmem, List.cons_subset_cons _ hsub⟩

theorem takeAccepting_subset {subject : Ty} {s : Substitution} {slots others : List Slot}
    {m : Match} (h : takeAccepting subject s slots = some (m, others)) : others ⊆ slots := by
  induction slots generalizing others with
  | nil => simp [takeAccepting] at h
  | cons first rest ih =>
      rw [takeAccepting] at h
      split at h
      · obtain ⟨-, rfl⟩ : _ = m ∧ rest = others := by simpa using h
        exact List.subset_cons_self _ _
      · obtain ⟨⟨found, left⟩, hfound, heq⟩ := Option.map_eq_some_iff.mp h
        obtain ⟨rfl, rfl⟩ : found = m ∧ first :: left = others := by simpa using heq
        exact List.cons_subset_cons _ (ih hfound)

-- A slot that accepts two subjects alike.
def AcceptsAlike (R : Substitution → Substitution → Prop) (a b : Ty) (slot : Slot) : Prop :=
  ∀ s s', R s s' → MatchesRelated R (slot.accept a s) (slot.accept b s')

variable {slots : List Slot} {s s' : Substitution}

-- The same slot is taken, and the same slots are left over.
theorem takeAccepting_related {a b : Ty} (hslots : ∀ slot ∈ slots, slot.AcceptsAlike R a b)
    (hs : R s s') :
    MatchesRelated R ((takeAccepting a s slots).map Prod.fst)
        ((takeAccepting b s' slots).map Prod.fst) ∧
      (takeAccepting a s slots).map Prod.snd = (takeAccepting b s' slots).map Prod.snd := by
  induction slots with
  | nil => exact ⟨.none, rfl⟩
  | cons slot rest ih =>
      obtain ⟨hmatch, hothers⟩ := ih fun other hmem => hslots other (List.mem_cons_of_mem _ hmem)
      have hfirst := hslots slot List.mem_cons_self s s' hs
      rw [takeAccepting, takeAccepting]
      generalize slot.accept a s = found at hfirst
      generalize slot.accept b s' = found' at hfirst
      cases hfirst with
      | some h => exact ⟨Option.Rel.some h, rfl⟩
      | none =>
          constructor
          · simpa [Function.comp_def] using hmatch
          · have := congrArg (Option.map (slot :: ·)) hothers
            simpa [Function.comp_def] using this

theorem pairGreedily_related (members : List Ty)
    (hslots : ∀ slot ∈ slots, ∀ t ∈ members, slot.AcceptsAlike R t t) {m m' : Match}
    (hs : R m.substitution m'.substitution) (hscore : m.score = m'.score) :
    MatchesRelated R (pairGreedily members slots m) (pairGreedily members slots m') := by
  induction members generalizing slots m m' with
  | nil => exact Option.Rel.some ⟨hs, hscore⟩
  | cons member members ih =>
      obtain ⟨hmatch, hothers⟩ := takeAccepting_related
        (fun slot hmem => hslots slot hmem member List.mem_cons_self) hs
      rw [pairGreedily, pairGreedily]
      cases htake : takeAccepting member m.substitution slots with
      | none =>
          have htake' : takeAccepting member m'.substitution slots = none := by
            simpa [htake] using hothers.symm
          rw [htake']
          exact .none
      | some taken =>
          obtain ⟨found, others⟩ := taken
          obtain ⟨found', htake'⟩ : ∃ found',
              takeAccepting member m'.substitution slots = some (found', others) := by
            simpa [htake] using hothers.symm
          rw [htake, htake'] at hmatch
          cases hmatch with
          | some hfound =>
              obtain ⟨hbound, hpoints⟩ : R found.substitution found'.substitution ∧
                found.score = found'.score := hfound
              rw [htake']
              refine ih (fun slot hmem t ht => hslots slot (takeAccepting_subset htake hmem) t
                (List.mem_cons_of_mem _ ht)) hbound ?_
              simp [Match.addScore, hpoints, hscore]

theorem pairIdentical_related (members : List Ty)
    (hslots : ∀ slot ∈ slots, ∀ t ∈ members, slot.AcceptsAlike R t t) {m m' : Match}
    (hs : R m.substitution m'.substitution) (hscore : m.score = m'.score) :
    (pairIdentical members slots m = none ∧ pairIdentical members slots m' = none) ∨
      ∃ left others found found',
        pairIdentical members slots m = some (left, others, found) ∧
        pairIdentical members slots m' = some (left, others, found') ∧
        left ⊆ members ∧ others ⊆ slots ∧
        R found.substitution found'.substitution ∧ found.score = found'.score := by
  induction members generalizing slots m m' with
  | nil =>
      exact .inr ⟨[], slots, m, m', rfl, rfl, List.Subset.refl _, List.Subset.refl _, hs, hscore⟩
  | cons member members ih =>
      have hlater : ∀ slot ∈ slots, ∀ t ∈ members, slot.AcceptsAlike R t t := fun slot hmem t ht =>
        hslots slot hmem t (List.mem_cons_of_mem _ ht)
      simp only [pairIdentical]
      cases htake : takeIdentical member slots with
      | none =>
          obtain ⟨h, h'⟩ | ⟨left, others, found, found', h, h', hleft, hrest⟩ :=
            ih hlater hs hscore
          · exact .inl ⟨by simp [h], by simp [h']⟩
          · exact .inr ⟨member :: left, others, found, found', by simp [h], by simp [h'],
              List.cons_subset_cons _ hleft, hrest⟩
      | some taken =>
          obtain ⟨slot, others⟩ := taken
          obtain ⟨hmem, hsub⟩ := takeIdentical_subset htake
          have haccept := hslots slot hmem member List.mem_cons_self _ _ hs
          simp only [Option.bind_eq_bind]
          generalize slot.accept member m.substitution = found at haccept
          generalize slot.accept member m'.substitution = found' at haccept
          cases haccept with
          | none => exact .inl ⟨rfl, rfl⟩
          | @some found found' hfound =>
              have hrest := @ih others (fun slot hmem => hlater slot (hsub hmem))
                (found.addScore m.score) (found'.addScore m'.score) hfound.1
                (by simp [Match.addScore, hfound.2, hscore])
              obtain hnone | ⟨left, others', found, found', h, h', hleft, hsub', hrest⟩ := hrest
              · exact .inl hnone
              · exact .inr ⟨left, others', found, found', h, h',
                  List.subset_cons_of_subset _ hleft, List.Subset.trans hsub' hsub, hrest⟩

theorem pair_related (members : List Ty)
    (hslots : ∀ slot ∈ slots, ∀ t ∈ members, slot.AcceptsAlike R t t) (hs : R s s') :
    MatchesRelated R (pair members slots s) (pair members slots s') := by
  rw [pair, pair]
  split
  · obtain ⟨h, h'⟩ | ⟨left, others, found, found', h, h', hleft, hsub, hfound, hscore⟩ :=
      @pairIdentical_related R slots members hslots ⟨s, 0⟩ ⟨s', 0⟩ hs rfl
    · rw [h, h']
      exact .none
    · rw [h, h']
      exact pairGreedily_related left (fun slot hmem t ht => hslots slot (hsub hmem) t (hleft ht))
        hfound hscore
  · exact .none

end Slot

end Ty

end Conformance
