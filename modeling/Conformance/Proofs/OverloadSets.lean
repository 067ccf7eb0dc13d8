import Conformance.Overload
import Conformance.Proofs.TypeOutlines

namespace Conformance

-- The functions of one name are joined one after the other, and each is compared with those that
-- were kept so far. The comparison is not transitive, so what is kept depends on the order; but
-- what is kept is never doubled, and what is left out is never lost.

open Ty (signaturesEquivalent)

-- Binds the functions of one name, up to the first that cannot be joined.
def mergeFunctions (sigs : List (Signature Ty)) : Option (Option Ty) :=
  sigs.foldlM (fun bound sig => (mergeFunction bound sig).map some) none

-- What a name is bound to by the functions that were kept: a function alone, or an overload set
-- of at least two.
def bindingOf : List (Signature Ty) → Option Ty
  | [] => none
  | [sig] => some (.function sig)
  | sigs => some (.overload sigs)

-- Keeps a function unless one of its signature is there already.
def keepSignature (members : List (Signature Ty)) (incoming : Signature Ty) :
    List (Signature Ty) :=
  if members.any fun member => signaturesEquivalent member incoming then members
  else members ++ [incoming]

theorem mergeFunction_bindingOf (members : List (Signature Ty)) (incoming : Signature Ty) :
    (mergeFunction (bindingOf members) incoming).map some =
      some (bindingOf (keepSignature members incoming)) := by
  rcases members with _ | ⟨first, _ | ⟨second, rest⟩⟩
  · rfl
  · by_cases h : signaturesEquivalent first incoming = true <;>
      simp [bindingOf, mergeFunction, keepSignature, h]
  · by_cases h : ((first :: second :: rest).any fun member =>
        signaturesEquivalent member incoming) = true <;>
      simp [bindingOf, mergeFunction, keepSignature, h]

theorem mergeFunctions_eq (sigs : List (Signature Ty)) :
    mergeFunctions sigs = some (bindingOf (sigs.foldl keepSignature [])) := by
  have hrun (members : List (Signature Ty)) :
      sigs.foldlM (fun bound sig => (mergeFunction bound sig).map some) (bindingOf members) =
        some (bindingOf (sigs.foldl keepSignature members)) := by
    induction sigs generalizing members with
    | nil => rfl
    | cons sig sigs ih =>
        rw [List.foldlM_cons, mergeFunction_bindingOf]
        exact ih _
  exact hrun []

-- No two functions have the same signature, whichever way round they are compared.
def Distinct (members : List (Signature Ty)) : Prop :=
  members.Pairwise fun f g => signaturesEquivalent f g = false ∧ signaturesEquivalent g f = false

-- What the functions that were kept are to those that were declared.
structure Represents (sigs members : List (Signature Ty)) : Prop where
  declared : members.Sublist sigs
  -- They stand in the order in which they first appear.
  inOrder : members.Sublist sigs.eraseDups
  distinct : Distinct members
  -- Every declared function has the signature of a kept one.
  complete : ∀ sig ∈ sigs, ∃ member ∈ members, signaturesEquivalent sig member = true

theorem Represents.keep {sigs members : List (Signature Ty)} (h : Represents sigs members)
    (incoming : Signature Ty) :
    Represents (sigs ++ [incoming]) (keepSignature members incoming) := by
  by_cases hany : (members.any fun member => signaturesEquivalent member incoming) = true
  · rw [keepSignature, if_pos hany]
    obtain ⟨member, hmember, hsame⟩ := List.any_eq_true.mp hany
    refine ⟨h.declared.trans (List.sublist_append_left _ _), ?_, h.distinct, ?_⟩
    · rw [List.eraseDups_append]
      exact h.inOrder.trans (List.sublist_append_left _ _)
    · rw [List.forall_mem_append, List.forall_mem_singleton]
      exact ⟨h.complete, member, hmember, (Ty.signaturesEquivalent_comm _ _).trans hsame⟩
  · rw [keepSignature, if_neg hany]
    have hother : ∀ member ∈ members, signaturesEquivalent member incoming = false := by
      simpa using hany
    have hnew : incoming ∉ sigs := by
      intro hmem
      obtain ⟨member, hmember, hsame⟩ := h.complete incoming hmem
      rw [Ty.signaturesEquivalent_comm, hother member hmember] at hsame
      cases hsame
    refine ⟨h.declared.append (List.Sublist.refl _), ?_, ?_, ?_⟩
    · have hlast : (sigs ++ [incoming]).eraseDups = sigs.eraseDups ++ [incoming] := by
        simp [List.eraseDups_append, List.removeAll, List.eraseDups_cons, hnew]
      rw [hlast]
      exact h.inOrder.append (List.Sublist.refl _)
    · refine List.pairwise_append.mpr ⟨h.distinct, List.pairwise_singleton _ _, ?_⟩
      intro member hmember sig hsig
      obtain rfl := List.mem_singleton.mp hsig
      exact ⟨hother member hmember,
        (Ty.signaturesEquivalent_comm _ _).trans (hother member hmember)⟩
    · rw [List.forall_mem_append, List.forall_mem_singleton]
      refine ⟨fun sig hsig => ?_, incoming, by simp, Ty.signaturesEquivalent_refl incoming⟩
      obtain ⟨member, hmember, hsame⟩ := h.complete sig hsig
      exact ⟨member, List.mem_append_left _ hmember, hsame⟩

theorem represents_foldl {seen members : List (Signature Ty)} (h : Represents seen members)
    (sigs : List (Signature Ty)) :
    Represents (seen ++ sigs) (sigs.foldl keepSignature members) := by
  induction sigs generalizing seen members with
  | nil => simpa using h
  | cons sig sigs ih => simpa using ih (h.keep sig)

theorem represents_merged (sigs : List (Signature Ty)) :
    Represents sigs (sigs.foldl keepSignature []) :=
  represents_foldl ⟨List.Sublist.refl _, List.Sublist.refl _, List.Pairwise.nil, by simp⟩ sigs

-- Functions can always be joined. Their name is then bound to one function, or to an overload set
-- of at least two, that stands for all of them.
theorem merged_functions_represent (first : Signature Ty) (rest : List (Signature Ty)) :
    ∃ members, Represents (first :: rest) members ∧
      ((∃ sig, members = [sig] ∧ mergeFunctions (first :: rest) = some (some (.function sig))) ∨
        2 ≤ members.length ∧ mergeFunctions (first :: rest) = some (some (.overload members))) := by
  have hbinding := mergeFunctions_eq (first :: rest)
  have hrepresents := represents_merged (first :: rest)
  generalize (first :: rest).foldl keepSignature [] = members at hbinding hrepresents
  refine ⟨members, hrepresents, ?_⟩
  rcases members with _ | ⟨member, _ | ⟨second, others⟩⟩
  · obtain ⟨_, hmember, -⟩ := hrepresents.complete first List.mem_cons_self
    cases hmember
  · exact .inl ⟨member, rfl, hbinding⟩
  · exact .inr ⟨by simp, hbinding⟩

-- A function of unknown parameters stands for all others if it comes first, and for none if it
-- comes last.
example : mergeFunctions [.plain [.unknown] .nil, .plain [.string] .nil, .plain [.nil] .nil] =
      some (some (.function (.plain [.unknown] .nil))) ∧
    mergeFunctions [.plain [.string] .nil, .plain [.nil] .nil, .plain [.unknown] .nil] =
      some (some (.overload [.plain [.string] .nil, .plain [.nil] .nil])) := by
  decide +kernel

section Order

variable {members others : List (Signature Ty)}

theorem Distinct.perm (h : Distinct members) (hperm : members.Perm others) : Distinct others :=
  (hperm.pairwise_iff And.symm).mp h

-- Two lists that have every signature of each other, and none twice, are of the same signatures
-- in another order.
theorem exists_arrangement (htyped : ∀ f ∈ members, Ty.signatureFullyTyped f = true)
    (htyped' : ∀ g ∈ others, Ty.signatureFullyTyped g = true)
    (hdistinct : Distinct members) (hdistinct' : Distinct others)
    (hto : ∀ f ∈ members, ∃ g ∈ others, signaturesEquivalent f g = true)
    (hfrom : ∀ g ∈ others, ∃ f ∈ members, signaturesEquivalent f g = true) :
    ∃ arranged, arranged.Perm others ∧
      List.Forall₂ (fun f g => signaturesEquivalent f g = true) members arranged := by
  induction members generalizing others with
  | nil =>
      obtain rfl : others = [] := List.eq_nil_iff_forall_not_mem.mpr fun g hg => by
        obtain ⟨f, hf, -⟩ := hfrom g hg
        cases hf
      exact ⟨[], List.Perm.nil, List.Forall₂.nil⟩
  | cons f members ih =>
      obtain ⟨hf, htyped⟩ := List.forall_mem_cons.mp htyped
      obtain ⟨hnew, hdistinct⟩ := List.pairwise_cons.mp hdistinct
      obtain ⟨⟨g, hg, hfg⟩, hto⟩ := List.forall_mem_cons.mp hto
      obtain ⟨before, after, rfl⟩ := List.append_of_mem hg
      have hperm : (before ++ g :: after).Perm (g :: (before ++ after)) := List.perm_middle
      obtain ⟨hnew', hdistinct'⟩ := List.pairwise_cons.mp (hdistinct'.perm hperm)
      have hmem : ∀ g' ∈ before ++ after, g' ∈ before ++ g :: after :=
        fun g' hg' => hperm.mem_iff.mpr (List.mem_cons_of_mem g hg')
      -- What agrees with `f` is taken by `g` alone, so that the others keep their partners.
      have hto' : ∀ f' ∈ members, ∃ g' ∈ before ++ after, signaturesEquivalent f' g' = true := by
        intro f' hf'
        obtain ⟨g', hg', hsame⟩ := hto f' hf'
        obtain rfl | hg' := List.mem_cons.mp (hperm.mem_iff.mp hg')
        · rw [Ty.signaturesEquivalent_comm] at hsame
          have hfalse := (hnew f' hf').1
          rw [Ty.signaturesEquivalent_trans (htyped' g' hg) hfg hsame] at hfalse
          cases hfalse
        · exact ⟨g', hg', hsame⟩
      have hfrom' : ∀ g' ∈ before ++ after, ∃ f' ∈ members,
          signaturesEquivalent f' g' = true := by
        intro g' hg'
        obtain ⟨f', hf', hsame⟩ := hfrom g' (hmem g' hg')
        obtain rfl | hf' := List.mem_cons.mp hf'
        · rw [Ty.signaturesEquivalent_comm] at hfg
          have hfalse := (hnew' g' hg').1
          rw [Ty.signaturesEquivalent_trans hf hfg hsame] at hfalse
          cases hfalse
        · exact ⟨f', hf', hsame⟩
      obtain ⟨arranged, harranged, hsame⟩ :=
        ih htyped (fun g' hg' => htyped' g' (hmem g' hg')) hdistinct hdistinct' hto' hfrom'
      exact ⟨g :: arranged, (harranged.cons g).trans hperm.symm, List.Forall₂.cons hfg hsame⟩

-- The order of fully typed functions does not matter: the name is bound to as many functions,
-- and these are of the same signatures.
theorem merge_order_irrelevant {sigs sigs' : List (Signature Ty)} (hperm : sigs.Perm sigs')
    (htyped : ∀ sig ∈ sigs, Ty.signatureFullyTyped sig = true) :
    ∃ members members', mergeFunctions sigs = some (bindingOf members) ∧
      mergeFunctions sigs' = some (bindingOf members') ∧ members.length = members'.length ∧
      ∃ arranged, arranged.Perm members' ∧
        List.Forall₂ (fun f g => signaturesEquivalent f g = true) members arranged := by
  have h := represents_merged sigs
  have h' := represents_merged sigs'
  have htyped' : ∀ sig ∈ sigs', Ty.signatureFullyTyped sig = true :=
    fun sig hsig => htyped sig (hperm.mem_iff.mpr hsig)
  obtain ⟨arranged, harranged, hsame⟩ := exists_arrangement
    (fun f hf => htyped f (h.declared.subset hf)) (fun g hg => htyped' g (h'.declared.subset hg))
    h.distinct h'.distinct
    (fun f hf => h'.complete f (hperm.mem_iff.mp (h.declared.subset hf)))
    (fun g hg => by
      obtain ⟨f, hf, hsame⟩ := h.complete g (hperm.mem_iff.mpr (h'.declared.subset hg))
      exact ⟨f, hf, (Ty.signaturesEquivalent_comm _ _).trans hsame⟩)
  exact ⟨_, _, mergeFunctions_eq sigs, mergeFunctions_eq sigs',
    hsame.length_eq.trans harranged.length_eq, arranged, harranged, hsame⟩

end Order

namespace Spellings

-- A box of anything in two spellings, and a text.
def spelled : Signature Ty := .plain [.inst "Box" [.param "T"]] .string

def applied : Signature Ty :=
  .plain [.alias "Crate" (.applied (.declared .struct "Box" ["T"]) [.param "U"])] .string

def text : Signature Ty := .plain [.string] .string

end Spellings

open Spellings in
-- Of the two spellings the first is kept.
theorem boxes_in_any_order :
    [spelled, text, applied].Perm [applied, spelled, text] ∧
      (∀ sig ∈ [spelled, text, applied], Ty.signatureFullyTyped sig = true) ∧
      mergeFunctions [spelled, text, applied] = some (some (.overload [spelled, text])) ∧
      mergeFunctions [applied, spelled, text] = some (some (.overload [applied, text])) ∧
      ∃ members members',
        mergeFunctions [spelled, text, applied] = some (bindingOf members) ∧
        mergeFunctions [applied, spelled, text] = some (bindingOf members') ∧
        members.length = members'.length ∧
        ∃ arranged, arranged.Perm members' ∧
          List.Forall₂ (fun f g => signaturesEquivalent f g = true) members arranged := by
  have hperm : [spelled, text, applied].Perm [applied, spelled, text] := by decide +kernel
  have htyped : ∀ sig ∈ [spelled, text, applied], Ty.signatureFullyTyped sig = true := by
    decide +kernel
  exact ⟨hperm, htyped, by decide +kernel, by decide +kernel, merge_order_irrelevant hperm htyped⟩

end Conformance
