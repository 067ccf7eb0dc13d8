import Conformance.Proofs.InstantiatedTargets
import Conformance.Proofs.SettledTypes

namespace Conformance

-- What a target binds in a settled subject does not depend on what is bound already: it matches
-- after others exactly if it matches by itself and binds nothing to another meaning.

namespace Substitution

def meaningAt (s : Substitution) (name : String) : Option Ty.Meaning :=
  (s.get? name).map Ty.meaning

def Settled (s : Substitution) : Prop := ∀ name t, s.get? name = some t → t.isSettled = true

-- No name has two meanings.
def Compatible (s s' : Substitution) : Prop :=
  ∀ name a b, s.meaningAt name = some a → s'.meaningAt name = some b → a = b

-- One substitution says what two of them say together, and the second one is settled too.
structure Joins (base own whole : Substitution) : Prop where
  settledOwn : own.Settled
  settled : whole.Settled
  compatible : base.Compatible own
  join : ∀ name, whole.meaningAt name = (base.meaningAt name).or (own.meaningAt name)

theorem joins_empty {s : Substitution} (hs : s.Settled) : Joins s ∅ s where
  settledOwn _ _ h := by cases h
  settled := hs
  compatible _ _ _ _ h := by cases h
  join name := by
    have hempty : meaningAt ∅ name = none := rfl
    rw [hempty, Option.or_none]

theorem settled_insert {s : Substitution} (hs : s.Settled) (name : String) {t : Ty}
    (ht : t.isSettled = true) : Settled (s.insert name t) := by
  intro other value hget
  rw [Bindings.get?_insert] at hget
  split at hget
  · obtain rfl := Option.some.inj hget
    exact ht
  · exact hs other value hget

theorem meaningAt_insert (s : Substitution) (name other : String) (t : Ty) :
    meaningAt (s.insert name t) other =
      if name = other then some t.meaning else s.meaningAt other := by
  rw [meaningAt, Bindings.get?_insert]
  split <;> rfl

namespace Joins

variable {base own whole : Substitution} {name : String} {t : Ty}

-- What the second one says, the whole says.
theorem meaningAt_whole (h : Joins base own whole) {a : Ty.Meaning}
    (hown : own.meaningAt name = some a) : whole.meaningAt name = some a := by
  rw [h.join name, hown]
  cases hbase : base.meaningAt name with
  | none => rfl
  | some b => rw [h.compatible name b a hbase hown, Option.some_or]

-- A name that is free in the second one says in the whole what it says in the first.
theorem meaningAt_base (h : Joins base own whole) (hown : own.meaningAt name = none) :
    base.meaningAt name = whole.meaningAt name := by
  rw [h.join name, hown, Option.or_none]

theorem insert_own (h : Joins base own whole) (ht : t.isSettled = true)
    (hown : own.meaningAt name = none) (hwhole : whole.meaningAt name = some t.meaning) :
    Joins base (own.insert name t) whole where
  settledOwn := settled_insert h.settledOwn name ht
  settled := h.settled
  compatible other a b ha hb := by
    rw [meaningAt_insert] at hb
    split at hb
    · rename_i heq
      rw [← heq, h.meaningAt_base hown, hwhole] at ha
      exact (Option.some.inj ha).symm.trans (Option.some.inj hb)
    · exact h.compatible other a b ha hb
  join other := by
    rw [meaningAt_insert]
    split
    · rename_i heq
      rw [← heq, h.meaningAt_base hown, hwhole, Option.some_or]
    · exact h.join other

theorem insert_both (h : Joins base own whole) (ht : t.isSettled = true)
    (hown : own.meaningAt name = none) (hwhole : whole.meaningAt name = none) :
    Joins base (own.insert name t) (whole.insert name t) where
  settledOwn := settled_insert h.settledOwn name ht
  settled := settled_insert h.settled name ht
  compatible other a b ha hb := by
    rw [meaningAt_insert] at hb
    split at hb
    · rename_i heq
      rw [← heq, h.meaningAt_base hown, hwhole] at ha
      cases ha
    · exact h.compatible other a b ha hb
  join other := by
    rw [meaningAt_insert, meaningAt_insert]
    split
    · rename_i heq
      rw [← heq, h.meaningAt_base hown, hwhole, Option.none_or]
    · exact h.join other

end Joins

-- What is known is bound to no second meaning. Unlike compatibility this is seen before a match
-- has come to its end, as nothing that is known is bound again.
def Allows (base s : Substitution) : Prop :=
  ∀ name a t, base.meaningAt name = some a → t.isUnknown = false → s.get? name = some t →
    a = t.meaning

theorem Compatible.allows {base s : Substitution} (h : base.Compatible s) : base.Allows s :=
  fun name a t ha _ ht => h name a t.meaning ha (by rw [meaningAt, ht, Option.map_some])

theorem Allows.of_keepsKnown {base s s' : Substitution} (h : s.KeepsKnown s')
    (hallows : base.Allows s') : base.Allows s :=
  fun name a t ha hknown ht => hallows name a t ha hknown (h name t hknown ht)

end Substitution

namespace Ty

open Substitution (Joins)

variable {base s own whole : Substitution}

-- Settled types, and what takes the place of parts that are missing.
def SettledOrMissing (t : Ty) : Prop := t.isSettled = true ∨ t = .unknown

theorem SettledOrMissing.isSettled {t : Ty} (h : SettledOrMissing t)
    (hknown : t.isUnknown = false) : t.isSettled = true := by
  obtain h | rfl := h
  · exact h
  · cases hknown

theorem settledOrMissing_hereditary : Hereditary SettledOrMissing where
  unknown := .inr rfl
  resolveAlias := by
    rintro t (h | rfl)
    · exact .inl (by rwa [isSettled_resolveAlias])
    · exact .inr rfl
  args := by
    rintro t n (h | rfl) hn arg harg
    · exact .inl ((isSettled_nominal h hn).2 arg harg)
    · cases hn
  members := by
    rintro members (h | h) <;> cases h
  params := by
    rintro ⟨_, params, result, _⟩ (h | h) t ht
    · rw [isSettled, signatureSettled, Bool.and_eq_true, allSettled_iff] at h
      exact .inl (h.1 t ht)
    · cases h
  result := by
    rintro ⟨_, params, result, _⟩ (h | h)
    · rw [isSettled, signatureSettled, Bool.and_eq_true] at h
      exact .inl h.2
    · cases h

theorem known_of_isSettled {t : Ty} (h : t.isSettled = true) : t.isUnknown = false := by
  cases t with
  | unknown => cases h
  | _ => rfl

-- A settled type is bound, agrees with what is bound or does not.
theorem bindParam_cases (name : String) {t : Ty} (ht : t.isSettled = true) (hs : s.Settled) :
    (s.meaningAt name = none ∧ bindParam name t s = some ⟨s.insert name t, 0⟩) ∨
    (s.meaningAt name = some t.meaning ∧ bindParam name t s = some ⟨s, 0⟩) ∨
    (∃ a, s.meaningAt name = some a ∧ a ≠ t.meaning ∧ bindParam name t s = none) := by
  cases hget : s.get? name with
  | none => exact .inl ⟨by rw [Substitution.meaningAt, hget]; rfl, by rw [bindParam, hget]⟩
  | some bound =>
      have hsettled := hs name bound hget
      have hmeaning : s.meaningAt name = some bound.meaning := by
        rw [Substitution.meaningAt, hget]
        rfl
      rw [bindParam_bound hget, known_of_isSettled hsettled, if_neg Bool.false_ne_true]
      have hiff := equivalent_iff_meaning bound hsettled ht
      by_cases hsame : bound.meaning = t.meaning
      · exact .inr (.inl ⟨by rw [hmeaning, hsame], by rw [if_pos (hiff.mpr hsame)]⟩)
      · refine .inr (.inr ⟨bound.meaning, hmeaning, hsame, ?_⟩)
        rw [if_neg fun h => hsame (hiff.mp h)]

theorem bindingKeeps_settled (names : List String) :
    BindingKeeps SettledOrMissing Substitution.Settled names [] where
  part name _ _ _ ht hknown hs :=
    bindParam_keeps hs (Substitution.settled_insert hs name (ht.isSettled hknown))
  head _ _ hhead := by cases hhead

theorem unify_settled {target t : Ty} (hheads : target.headNames = []) (ht : SettledOrMissing t)
    {m : Match} (hs : s.Settled) (h : unify target t s = some m) : m.substitution.Settled :=
  unify_keeps settledOrMissing_hereditary target (hheads ▸ bindingKeeps_settled _) ht hs m h

theorem bindParam_splits (name : String) {t : Ty} (ht : t.isSettled = true)
    (h : Joins base own whole) :
    MatchesWhile (Joins base) base.Allows (bindParam name t own) (bindParam name t whole) := by
  obtain ⟨hown, hbind⟩ | ⟨hown, hbind⟩ | ⟨b, hown, hne, hbind⟩ :=
    bindParam_cases name ht h.settledOwn
  · -- The name is free in the match by itself, which then binds it.
    obtain ⟨hwhole, hbind'⟩ | ⟨hwhole, hbind'⟩ | ⟨a, hwhole, hne, hbind'⟩ :=
      bindParam_cases name ht h.settled
    · rw [hbind, hbind']
      exact .some (h.insert_both ht hown hwhole) 0
    · rw [hbind, hbind']
      exact .some (h.insert_own ht hown hwhole) 0
    · rw [hbind, hbind']
      refine ⟨fun _ hm => (by cases hm), fun m hm hallows => absurd ?_ hne⟩
      obtain rfl := Option.some.inj hm
      refine hallows name a t (by rw [h.meaningAt_base hown, hwhole]) (known_of_isSettled ht) ?_
      rw [Bindings.get?_insert, if_pos rfl]
  · -- The name has a meaning in the match by itself, and after others it has the same.
    have hwhole := h.meaningAt_whole hown
    obtain ⟨hnone, -⟩ | ⟨-, hbind'⟩ | ⟨a, ha, hne, -⟩ := bindParam_cases name ht h.settled
    · simp [hwhole] at hnone
    · rw [hbind, hbind']
      exact .some h 0
    · rw [hwhole] at ha
      exact absurd (Option.some.inj ha).symm hne
  · have hwhole := h.meaningAt_whole hown
    obtain ⟨hnone, -⟩ | ⟨hsame, -⟩ | ⟨-, -, -, hbind'⟩ := bindParam_cases name ht h.settled
    · simp [hwhole] at hnone
    · rw [hwhole] at hsame
      exact absurd (Option.some.inj hsame) hne
    · rw [hbind, hbind']
      exact .none

theorem bindingsRelated_splits (base : Substitution) (names : List String) :
    BindingsRelated (fun a b => a = b ∧ SettledOrMissing a) (Joins base) base.Allows names [] where
  part := by
    rintro name - a _ own whole ⟨rfl, ha⟩ hknown h
    exact bindParam_splits name (ha.isSettled hknown) h
  head _ _ hhead := by cases hhead

-- A match by itself, and the same match after others: if the second succeeds, so does the first,
-- with the same score and with bindings that the second joins; and the second succeeds if what
-- the first one binds is compatible with what the others have bound.
theorem unify_splits (target : Ty) (hfree : target.isUnionFree = true)
    (hheads : target.headNames = []) {t : Ty} (ht : SettledOrMissing t)
    (h : Joins base own whole) :
    MatchesWhile (Joins base) base.Allows (unify target t own) (unify target t whole) := by
  have hback : Backward base.Allows := fun _ _ _ _ hm hallows =>
    hallows.of_keepsKnown (unify_keepsKnown hm)
  exact unify_related settledOrMissing_hereditary.subjectsRelated hback target (.inl hfree)
    (hheads ▸ bindingsRelated_splits base _) ⟨rfl, ht⟩ h

end Ty

end Conformance
