import Conformance.Proofs.TypeOutlines

namespace Conformance

-- Types are compared without regard to direction, and every type says the same as itself. Only what
-- a type leaves open keeps the comparison from being an equivalence: two types can each fit what is
-- open in a third, and not fit each other.

namespace Ty

section Refilling

variable {t : Ty} {parts : List Ty}

-- An application is of the constructor of what is applied, bare or not.
theorem outline_applied {n : Nominal} (h : t.nominal? = some n) (args : List Ty) :
    (Ty.applied t args).outline = ⟨some (.constructor n.name n.head), args, false⟩ := by
  rw [outline, nominal?, h]
  rfl

-- The signatures of an overload set with other types in their positions.
theorem exists_regrouped (sigs : List (Signature Ty))
    (h : parts.length = (sigs.flatMap Signature.positions).length) :
    ∃ others : List (Signature Ty),
      others.map (fun sig => sig.params.length) = sigs.map (fun sig => sig.params.length) ∧
        others.flatMap Signature.positions = parts := by
  induction sigs generalizing parts with
  | nil => exact ⟨[], rfl, (List.length_eq_zero_iff.mp h).symm⟩
  | cons sig sigs ih =>
      cases parts with
      | nil => simp [Signature.positions] at h
      | cons result rest =>
          simp only [List.flatMap_cons, List.length_append, Signature.positions,
            List.length_cons] at h
          obtain ⟨others, harities, hothers⟩ :=
            @ih (rest.drop sig.params.length) (by rw [List.length_drop]; omega)
          refine ⟨.plain (rest.take sig.params.length) result :: others, ?_, ?_⟩
          · have hlength : (rest.take sig.params.length).length = sig.params.length := by
              rw [List.length_take]
              omega
            simp [Signature.plain, harities, hlength]
          · simp [Signature.positions, Signature.plain, hothers]

-- The parts of a type can be exchanged for as many others, and nothing stays bare.
theorem exists_refilled (t : Ty) (h : parts.length = t.outline.parts.length) :
    ∃ u : Ty, u.outline = ⟨t.outline.root, parts, false⟩ := by
  cases hn : t.nominal? with
  | some n =>
      rw [outline_nominal hn]
      exact ⟨.applied t parts, outline_applied hn parts⟩
  | none =>
      rw [← outline_resolveAlias] at h ⊢
      obtain hr | ⟨kind, hr⟩ | ⟨name, hr⟩ | ⟨members, hr⟩ | ⟨sig, hr⟩ | ⟨sigs, hr⟩ |
        ⟨base, args, hr, hbase⟩ := resolveAlias_cases hn <;> rw [hr] at h ⊢
      · obtain rfl := List.length_eq_zero_iff.mp h
        exact ⟨.unknown, rfl⟩
      · obtain rfl := List.length_eq_zero_iff.mp h
        exact ⟨.scalar kind, rfl⟩
      · obtain rfl := List.length_eq_zero_iff.mp h
        exact ⟨.param name, rfl⟩
      · exact ⟨.anyOf parts, rfl⟩
      · cases parts with
        | nil => simp [outline, nominal?, resolveAlias, Signature.positions] at h
        | cons result params => exact ⟨.function (.plain params result), rfl⟩
      · obtain ⟨others, harities, hothers⟩ := exists_regrouped sigs h
        refine ⟨.overload others, ?_⟩
        simp only [outline, nominal?, resolveAlias, harities, hothers]
      · rw [outline_written hbase] at h ⊢
        obtain rfl := List.length_eq_zero_iff.mp h
        exact ⟨.applied base args, outline_written hbase args⟩

end Refilling

section Openness

variable {a b c : Ty}

theorem allEquivalent_exchanged_iff (before after : List Ty) (x y : Ty) :
    allEquivalent (before ++ x :: after) (before ++ y :: after) = true ↔
      equivalent x y = true := by
  simp [allEquivalent_append, allEquivalent_refl, allEquivalent]

-- Types of one root are compared by their parts.
theorem equivalent_refilled_iff {root : Root} {parts parts' : List Ty}
    (ha : a.outline = ⟨some root, parts, false⟩) (hc : c.outline = ⟨some root, parts', false⟩) :
    equivalent a c = true ↔ allEquivalent parts parts' = true := by
  simp [equivalent_iff_outline, ha, hc]

theorem nominal?_of_bare {t : Ty} (h : t.outline.bare = true) : ∃ n, t.nominal? = some n := by
  cases hn : t.nominal? with
  | some n => exact ⟨n, rfl⟩
  | none =>
      rw [outline, hn] at h
      obtain hr | ⟨_, hr⟩ | ⟨_, hr⟩ | ⟨_, hr⟩ | ⟨_, hr⟩ | ⟨_, hr⟩ | ⟨_, _, hr, -⟩ :=
        resolveAlias_cases hn <;> simp [hr] at h

-- The comparison goes through a type: what says the same as it on both sides says the same.
def Mediates (b : Ty) : Prop :=
  ∀ a c, equivalent a b = true → equivalent b c = true → equivalent a c = true

-- What is unknown fits two scalars that differ.
theorem Mediates.known (h : b.Mediates) : b.outline.root ≠ none := by
  intro hnone
  have hfits (t : Ty) : equivalent t b = true := by
    rw [equivalent_iff_outline]
    exact .inr (.inl hnone)
  have heq := h .nil .string (hfits .nil) (equivalent_symm (hfits .string))
  exact absurd heq (by decide)

-- A bare constructor fits two of its applications that differ.
theorem Mediates.full (h : b.Mediates) : b.outline.bare = false := by
  rw [← Bool.not_eq_true]
  intro hbare
  obtain ⟨n, hn⟩ := nominal?_of_bare hbare
  have hfits (t : Ty) : equivalent (.applied b [t]) b = true := by
    rw [equivalent_iff_outline, hbare, outline_applied hn, outline_nominal hn]
    exact .inr (.inr ⟨rfl, .inr (.inl rfl)⟩)
  have heq := h _ _ (hfits .nil) (equivalent_symm (hfits .string))
  rw [equivalent_refilled_iff (outline_applied hn _) (outline_applied hn _)] at heq
  exact absurd heq (by decide)

-- What fits a part on both sides can be put in its place on both sides.
theorem Mediates.part (h : b.Mediates) {part : Ty} (hpart : part ∈ b.outline.parts) :
    part.Mediates := by
  intro x z hx hz
  obtain ⟨root, hroot⟩ := Option.ne_none_iff_exists'.mp h.known
  obtain ⟨before, after, hparts⟩ := List.append_of_mem hpart
  have hb : b.outline = ⟨some root, before ++ part :: after, false⟩ := by
    rw [← hroot, ← hparts, ← h.full]
  have hrefill (t : Ty) : ∃ u : Ty, u.outline = ⟨some root, before ++ t :: after, false⟩ := by
    rw [← hroot]
    exact exists_refilled b (by rw [hparts]; simp)
  obtain ⟨a, ha⟩ := hrefill x
  obtain ⟨c, hc⟩ := hrefill z
  have hab := (equivalent_refilled_iff ha hb).mpr ((allEquivalent_exchanged_iff _ _ _ _).mpr hx)
  have hbc := (equivalent_refilled_iff hb hc).mpr ((allEquivalent_exchanged_iff _ _ _ _).mpr hz)
  have hac := (equivalent_refilled_iff ha hc).mp (h a c hab hbc)
  exact (allEquivalent_exchanged_iff _ _ _ _).mp hac

theorem mediates_iff (b : Ty) : b.Mediates ↔ b.IsFixed := by
  constructor
  · intro h
    induction b using part_induction with
    | step b ih => exact .intro h.known h.full fun part hpart => ih part hpart (h.part hpart)
  · exact fun h a c => h.equivalent_trans

end Openness

end Ty

-- The comparison of types is reflexive and symmetric. It goes through every type in which nothing
-- is unknown and no constructor is bare, and in general through just those types that leave nothing
-- open where they are compared.
theorem comparison_nearly_equivalence :
    (∀ t, Ty.equivalent t t = true) ∧
      (∀ a b, Ty.equivalent a b = true → Ty.equivalent b a = true) ∧
      (∀ a b c, b.isFullyTyped = true → Ty.equivalent a b = true → Ty.equivalent b c = true →
        Ty.equivalent a c = true) ∧
      ∀ b : Ty, (∀ a c, Ty.equivalent a b = true → Ty.equivalent b c = true →
        Ty.equivalent a c = true) ↔ b.IsFixed :=
  ⟨Ty.equivalent_refl, fun _ _ => Ty.equivalent_symm, fun _ _ _ => Ty.equivalent_trans,
    Ty.mediates_iff⟩

namespace PairSpellings

def declared : Ty := .declared .struct "Pair" ["A", "B"]

-- One type in three spellings.
def aliased : Ty := .alias "Labelled" (.inst "Pair" [.string, .param "T"])

def appliedPair : Ty := .applied declared [.alias "Label" .string, .param "U"]

def nestedPair : Ty := .applied (.inst "Pair" []) [.string, .param "V"]

end PairSpellings

open PairSpellings in
-- Two spellings say the same because each says the same as the third. An array of which the elements
-- are unknown does not carry a comparison on.
theorem pair_spellings_agree :
    appliedPair.isFullyTyped = true ∧ Ty.equivalent aliased appliedPair = true ∧
      Ty.equivalent appliedPair nestedPair = true ∧ Ty.equivalent aliased nestedPair = true ∧
      ¬ Ty.IsFixed (.unary .array .unknown) := by
  obtain ⟨-, -, htrans, hexact⟩ := comparison_nearly_equivalence
  have hfull : appliedPair.isFullyTyped = true := by decide
  have hleft : Ty.equivalent aliased appliedPair = true := by decide
  have hright : Ty.equivalent appliedPair nestedPair = true := by decide
  refine ⟨hfull, hleft, hright, htrans _ _ _ hfull hleft hright, fun hfixed => ?_⟩
  have hthrough := (hexact _).mpr hfixed (.unary .array .nil) (.unary .array .string)
  exact absurd (hthrough (by decide) (by decide)) (by decide)

end Conformance
