import Conformance.Implementation
import Conformance.Specificity
import Mathlib.Data.List.Sort
import Mathlib.Data.String.Basic

namespace Conformance

-- Insertion keeps the strict order, so a set of labels holds no label twice.
theorem insertLabel_sorted (label : String) (labels : List String)
    (h : labels.Pairwise (· < ·)) : (insertLabel label labels).Pairwise (· < ·) := by
  induction labels with
  | nil => simp [insertLabel]
  | cons first rest ih =>
      obtain ⟨hfirst, hrest⟩ := List.pairwise_cons.mp h
      simp only [insertLabel]
      split_ifs with heq hlt
      · exact h
      · refine List.pairwise_cons.mpr ⟨?_, h⟩
        intro other hmem
        rcases List.mem_cons.mp hmem with rfl | hmem
        · exact hlt
        · exact hlt.trans (hfirst other hmem)
      · have hgt : first < label := lt_of_le_of_ne (not_lt.mp hlt) (Ne.symm heq)
        refine List.pairwise_cons.mpr ⟨?_, ih hrest⟩
        intro other hmem
        rcases (mem_insertLabel label other rest).mp hmem with rfl | hmem
        · exact hgt
        · exact hfirst other hmem

theorem labelSet_sorted (labels : List String) : (labelSet labels).Pairwise (· < ·) := by
  induction labels with
  | nil => exact List.Pairwise.nil
  | cons label labels ih => exact insertLabel_sorted label (labelSet labels) ih

theorem labelSet_nodup (labels : List String) : (labelSet labels).Nodup :=
  (labelSet_sorted labels).imp ne_of_lt

-- A set of labels is fixed by its members.
theorem labelSet_eq_of_mem_iff {labels others : List String}
    (h : ∀ label, label ∈ labels ↔ label ∈ others) : labelSet labels = labelSet others := by
  apply List.Pairwise.eq_of_mem_iff (labelSet_sorted labels) (labelSet_sorted others)
  intro label
  rw [mem_labelSet, mem_labelSet, h]

theorem labelSet_perm {labels others : List String} (h : labels.Perm others) :
    labelSet labels = labelSet others :=
  labelSet_eq_of_mem_iff fun _ => h.mem_iff

-- The test by lengths decides strict inclusion, because neither list repeats a label.
theorem strictSuperset_iff {a b : List String} (ha : a.Nodup) (hb : b.Nodup) :
    strictSuperset a b ↔ b ⊆ a ∧ ¬ a ⊆ b := by
  have hall : b.all a.contains = true ↔ b ⊆ a := by
    simp [List.subset_def]
  constructor
  · intro h
    simp only [strictSuperset, Bool.and_eq_true, decide_eq_true_eq] at h
    obtain ⟨⟨-, hlen⟩, hsub⟩ := h
    refine ⟨hall.mp hsub, fun hback => ?_⟩
    have hle := (List.subperm_of_subset ha hback).length_le
    omega
  · rintro ⟨hsub, hnot⟩
    have hperm := List.subperm_of_subset hb hsub
    have hlen : b.length < a.length := by
      by_contra hge
      exact hnot (hperm.perm_of_length_le (not_lt.mp hge)).symm.subset
    have hne : a ≠ [] := by
      rintro rfl
      simp at hlen
    simp only [strictSuperset, Bool.and_eq_true, decide_eq_true_eq]
    exact ⟨⟨by simpa using hne, hlen⟩, hall.mpr hsub⟩

theorem Implementation.constraintKeys_nodup (impl : Implementation) : impl.constraintKeys.Nodup :=
  labelSet_nodup _

end Conformance
