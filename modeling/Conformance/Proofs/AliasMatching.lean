import Conformance.Proofs.RelatedSubjects

namespace Conformance

namespace Bindings

variable {α β : Type}

def map (f : α → β) (b : Bindings α) : Bindings β := ⟨b.entries.map fun e => (e.1, f e.2)⟩

theorem get?_map (f : α → β) (b : Bindings α) (name : String) :
    (b.map f).get? name = (b.get? name).map f := by
  obtain ⟨entries⟩ := b
  simp only [map, get?]
  induction entries with
  | nil => rfl
  | cons entry rest ih =>
      simp only [List.map_cons, find, ih]
      split <;> rfl

theorem contains_map (f : α → β) (b : Bindings α) (name : String) :
    (b.map f).contains name = b.contains name := by
  simp [contains, get?_map]

theorem insert_map (f : α → β) (b : Bindings α) (name : String) (value : α) :
    (b.insert name value).map f = (b.map f).insert name (f value) := by
  obtain ⟨entries⟩ := b
  simp only [insert, map, Bindings.mk.injEq]
  induction entries with
  | nil => rfl
  | cons entry rest ih =>
      simp only [List.map_cons, put]
      split
      · rfl
      · simp [ih]

theorem insertIfNew_map (f : α → β) (b : Bindings α) (name : String) (value : α) :
    (b.insertIfNew name value).map f = (b.map f).insertIfNew name (f value) := by
  simp only [insertIfNew, contains_map]
  split
  · rfl
  · exact insert_map f b name value

theorem isEmpty_map (f : α → β) (b : Bindings α) : (b.map f).isEmpty = b.isEmpty := by
  simp [isEmpty, map]

end Bindings

namespace Match

def unalias (m : Match) : Match := ⟨m.substitution.map Ty.unalias, m.score⟩

end Match

-- Two matches of types that look the same.
def AlikeMatches (found found' : Option Match) : Prop :=
  found.map Match.unalias = found'.map Match.unalias

theorem alikeMatches_iff {found found' : Option Match} :
    AlikeMatches found found' ↔
      MatchesRelated (fun s s' => s.map Ty.unalias = s'.map Ty.unalias) found found' := by
  cases found <;> cases found' <;>
    simp [AlikeMatches, MatchesRelated, Match.unalias]

namespace AlikeMatches

theorem none : AlikeMatches none none := rfl

theorem some {s s' : Substitution} (hs : s.map Ty.unalias = s'.map Ty.unalias) (score : Nat) :
    AlikeMatches (some ⟨s, score⟩) (some ⟨s', score⟩) := by
  simp [AlikeMatches, Match.unalias, hs]

variable {found found' : Option Match}

theorem cases (h : AlikeMatches found found') :
    (found = .none ∧ found' = .none) ∨ ∃ m m', found = .some m ∧ found' = .some m' ∧
      m.substitution.map Ty.unalias = m'.substitution.map Ty.unalias ∧ m.score = m'.score := by
  cases alikeMatches_iff.mp h with
  | none => exact .inl ⟨rfl, rfl⟩
  | some hfound => exact .inr ⟨_, _, rfl, rfl, hfound⟩

end AlikeMatches

namespace Ty

theorem forall₂_of_map_eq {xs ys : List Ty} (h : xs.map unalias = ys.map unalias) :
    List.Forall₂ (fun a b => a.unalias = b.unalias) xs ys := by
  rw [← List.forall₂_eq_eq_eq, List.forall₂_map_left_iff, List.forall₂_map_right_iff] at h
  exact h

theorem bindParam_bound {name : String} {s : Substitution} {bound : Ty}
    (h : s.get? name = some bound) (actual : Ty) :
    bindParam name actual s =
      if bound.isUnknown then some ⟨s.insert name actual, 0⟩
      else if equivalent bound actual then some ⟨s, 0⟩ else none := by
  rw [bindParam, h]
  cases bound <;> rfl

-- Subjects that look the same through their aliases.
theorem subjectsRelated_unalias : SubjectsRelated fun a b => a.unalias = b.unalias where
  looks h := h
  unknown := rfl
  resolveAlias := resolveAlias_alike
  args := by
    intro a b m n h hm hn
    obtain ⟨ha, -⟩ | ⟨_, _, _, xs, ys, ha, hb, hargs⟩ := nominal?_alike h
    · cases ha.symm.trans hm
    · obtain rfl := Option.some.inj (ha.symm.trans hm)
      obtain rfl := Option.some.inj (hb.symm.trans hn)
      exact forall₂_of_map_eq hargs
  members _ _ _ := rfl
  params := by
    rintro ⟨_, params, _, _⟩ ⟨_, params', _, _⟩ h
    simp only [unalias, unaliasSignature, unaliasAll_eq, Ty.function.injEq,
      Signature.mk.injEq] at h
    exact forall₂_of_map_eq h.2.1
  result := by
    rintro ⟨_, _, result, _⟩ ⟨_, _, result', _⟩ h
    simp only [unalias, unaliasSignature, Ty.function.injEq, Signature.mk.injEq] at h
    exact h.2.2.1

theorem bindParam_alike (name : String) {a b : Ty} {s s' : Substitution}
    (h : a.unalias = b.unalias) (hs : s.map unalias = s'.map unalias) :
    AlikeMatches (bindParam name a s) (bindParam name b s') := by
  have hinsert : (s.insert name a).map unalias = (s'.insert name b).map unalias := by
    rw [Bindings.insert_map, Bindings.insert_map, hs, h]
  have hbound : (s.get? name).map unalias = (s'.get? name).map unalias := by
    rw [← Bindings.get?_map, ← Bindings.get?_map, hs]
  cases hx : s.get? name with
  | none =>
      have hy : s'.get? name = none := by simpa [hx] using hbound.symm
      simpa only [bindParam, hx, hy] using .some hinsert 0
  | some x =>
      obtain ⟨y, hy, hxy⟩ : ∃ y, s'.get? name = some y ∧ y.unalias = x.unalias := by
        simpa [hx] using hbound.symm
      have hagree : equivalent x a = equivalent y b := by
        rw [← equivalent_unalias x a, ← equivalent_unalias y b, hxy, h]
      rw [bindParam_bound hx, bindParam_bound hy, isUnknown_alike hxy, hagree]
      split
      · exact .some hinsert 0
      · split
        · exact .some hs 0
        · exact .none

theorem bindingsRelated_unalias (names heads : List String) :
    BindingsRelated (fun a b => a.unalias = b.unalias)
      (fun s s' => s.map unalias = s'.map unalias) (fun _ => True) names heads where
  part name _ a b _ _ h _ hs :=
    (alikeMatches_iff.mp (bindParam_alike name h hs)).follows
  head name _ _ a b x y _ _ h hx hy _ hs := by
    obtain ⟨ha, -⟩ | ⟨_, _, ha, hb, hxy⟩ := constructor?_alike h
    · cases ha.symm.trans hx
    · obtain rfl := Option.some.inj (ha.symm.trans hx)
      obtain rfl := Option.some.inj (hb.symm.trans hy)
      exact (alikeMatches_iff.mp (bindParam_alike name hxy hs)).follows

-- Matching looks through the aliases of the subject wherever they stand, and what it binds
-- looks the same too.
theorem unify_alike (target : Ty) {a b : Ty} {s s' : Substitution} (h : a.unalias = b.unalias)
    (hs : s.map unalias = s'.map unalias) :
    AlikeMatches (unify target a s) (unify target b s') :=
  alikeMatches_iff.mpr (unify_related subjectsRelated_unalias backward_true target
    (.inr fun _ => trivial) (bindingsRelated_unalias _ _) h hs).related

theorem unifyAll_alike (targets : List Ty) {xs ys : List Ty} {s s' : Substitution}
    (h : xs.map unalias = ys.map unalias) (hs : s.map unalias = s'.map unalias) :
    AlikeMatches (unifyAll targets xs s) (unifyAll targets ys s') :=
  alikeMatches_iff.mpr (unifyAll_related subjectsRelated_unalias backward_true targets
    (.inr fun _ => trivial) (bindingsRelated_unalias _ _) (forall₂_of_map_eq h) hs).related

end Ty

end Conformance
