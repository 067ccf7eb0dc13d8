import Conformance.Proofs.AliasInstances
import Conformance.Proofs.TypeOutlines

namespace Conformance

-- The names of parameters do not count when signatures are compared, as long as the comparison
-- goes into the types. It does not go into the application of a parameter, or of anything else
-- that is no constructor, and there the names do count.

-- Parameters are given other names, and nothing else is put in their places.
def Substitution.IsRenaming (s : Substitution) : Prop :=
  ∀ name t, s.get? name = some t → t.isParam = true

namespace Ty

mutual
-- The applications that are compared as they are written.
def writtenParts : Ty → List Ty
  | .inst _ args => writtenPartsOfAll args
  | .anyOf members => writtenPartsOfAll members
  | .alias _ target => target.writtenParts
  | .applied base args =>
      if base.nominal?.isSome then writtenPartsOfAll args else [.applied base args]
  | .nullable inner => inner.writtenParts
  | .function sig => writtenPartsOfSignature sig
  | .overload sigs => writtenPartsOfSignatures sigs
  | .unary _ arg => arg.writtenParts
  | .map key value => key.writtenParts ++ value.writtenParts
  | _ => []
def writtenPartsOfAll : List Ty → List Ty
  | [] => []
  | t :: ts => t.writtenParts ++ writtenPartsOfAll ts
def writtenPartsOfSignature : Signature Ty → List Ty
  | ⟨_, params, result, _⟩ => result.writtenParts ++ writtenPartsOfAll params
def writtenPartsOfSignatures : List (Signature Ty) → List Ty
  | [] => []
  | sig :: sigs => writtenPartsOfSignature sig ++ writtenPartsOfSignatures sigs
end

@[simp] theorem writtenPartsOfAll_eq (ts : List Ty) :
    writtenPartsOfAll ts = ts.flatMap writtenParts := by
  induction ts with
  | nil => rfl
  | cons t ts ih => simp [writtenPartsOfAll, ih]

theorem writtenPartsOfSignature_eq (sig : Signature Ty) :
    writtenPartsOfSignature sig = sig.positions.flatMap writtenParts := by
  obtain ⟨_, _, _, _⟩ := sig
  simp [writtenPartsOfSignature, Signature.positions]

theorem writtenPartsOfSignatures_eq (sigs : List (Signature Ty)) :
    writtenPartsOfSignatures sigs = (sigs.flatMap Signature.positions).flatMap writtenParts := by
  induction sigs with
  | nil => rfl
  | cons sig sigs ih =>
      rw [writtenPartsOfSignatures, ih, writtenPartsOfSignature_eq, List.flatMap_cons,
        List.flatMap_append]

theorem writtenParts_resolveAlias (t : Ty) : t.resolveAlias.writtenParts = t.writtenParts := by
  fun_induction Ty.resolveAlias t with
  | case1 name target ih => rw [ih, writtenParts]
  | case2 t => rfl

theorem writtenParts_nominal : {t : Ty} → {n : Nominal} → t.nominal? = some n →
    t.writtenParts = n.args.flatMap writtenParts
  | .alias _ target, _, h => writtenParts_nominal (t := target) h
  | .applied base args, _, h => by
      obtain ⟨head, hbase, rfl⟩ := Option.map_eq_some_iff.mp h
      simp [writtenParts, hbase]
  | .declared _ _ _, _, h | .inst _ _, _, h | .nullable _, _, h | .unary _ _, _, h
  | .map _ _, _, h => by
      obtain rfl := Option.some.inj h
      simp [writtenParts]

section Renaming

variable {s : Substitution}

theorem applyTo_of_nominal?_eq_none {base : Ty} (h : base.nominal? = none) (args : List Ty) :
    applyTo base args = .applied base args := by
  cases base with
  | unary | map => cases h
  | _ => rfl

theorem exists_param_of_isRenaming (hs : s.IsRenaming) (name : String) :
    ∃ other, (Ty.param name).instantiate s = .param other := by
  rw [instantiate]
  cases h : s.get? name with
  | none => exact ⟨name, rfl⟩
  | some t =>
      have hparam := hs name t h
      cases t with
      | param other => exact ⟨other, rfl⟩
      | _ => cases hparam

theorem isAlias_rename (hs : s.IsRenaming) {t : Ty} (h : t.isAlias = false) :
    (t.instantiate s).isAlias = false := by
  cases t with
  | param name =>
      obtain ⟨other, hother⟩ := exists_param_of_isRenaming hs name
      rw [hother]
      rfl
  | applied base args => exact isAlias_applyTo _ _
  | «alias» => cases h
  | _ => rfl

theorem resolveAlias_rename (hs : s.IsRenaming) (t : Ty) :
    (t.instantiate s).resolveAlias = t.resolveAlias.instantiate s := by
  fun_induction resolveAlias t with
  | case1 name target ih => exact ih
  | case2 t hnot =>
      refine resolveAlias_of_not_isAlias (isAlias_rename hs ?_)
      cases t with
      | «alias» name target => exact absurd rfl (hnot name target)
      | _ => rfl

-- What is no constructor does not become one by a renaming.
theorem nominal?_rename_eq_none (hs : s.IsRenaming) : {t : Ty} → t.nominal? = none →
    (t.instantiate s).nominal? = none
  | .param name, _ => by
      obtain ⟨other, hother⟩ := exists_param_of_isRenaming hs name
      rw [hother]
      rfl
  | .alias _ target, h => nominal?_rename_eq_none hs (t := target) h
  | .applied base args, h => by
      have hbase := nominal?_rename_eq_none hs (t := base) (by simpa [nominal?] using h)
      rw [instantiate, applyTo_of_nominal?_eq_none hbase, nominal?, hbase]
      rfl
  | .unknown, _ | .scalar _, _ | .anyOf _, _ | .function _, _ | .overload _, _ => rfl

def Root.map (f : Ty → Ty) : Root → Root
  | .written base args => .written (f base) (args.map f)
  | root => root

def Outline.map (f : Ty → Ty) (o : Outline) : Outline :=
  ⟨o.root.map (Root.map f), o.parts.map f, o.bare⟩

theorem length_params_instantiateSignature (sig : Signature Ty) :
    (instantiateSignature s sig).params.length = sig.params.length := by
  obtain ⟨_, _, _, _⟩ := sig
  simp [instantiateSignature]

theorem positions_instantiateSignature (sig : Signature Ty) :
    (instantiateSignature s sig).positions = sig.positions.map (instantiate s) := by
  obtain ⟨_, _, _, _⟩ := sig
  simp [instantiateSignature, Signature.positions]

-- A renaming leaves the outline of a type, and goes on inside its parts.
theorem outline_rename (hs : s.IsRenaming) (t : Ty) :
    (t.instantiate s).outline = t.outline.map (instantiate s) := by
  cases hn : t.nominal? with
  | some n =>
      rw [outline_nominal hn, outline_nominal (nominal?_instantiate s hn)]
      rfl
  | none =>
      rw [← outline_resolveAlias t, ← outline_resolveAlias (t.instantiate s),
        resolveAlias_rename hs]
      obtain hr | ⟨kind, hr⟩ | ⟨name, hr⟩ | ⟨members, hr⟩ | ⟨sig, hr⟩ | ⟨sigs, hr⟩ |
        ⟨base, args, hr, hbase⟩ := resolveAlias_cases hn <;> rw [hr]
      · rfl
      · rfl
      · obtain ⟨other, hother⟩ := exists_param_of_isRenaming hs name
        rw [hother]
        rfl
      · simp [instantiate, outline, nominal?, resolveAlias, Outline.map, Root.map]
      · simp [instantiate, outline, nominal?, resolveAlias, Outline.map, Root.map,
          positions_instantiateSignature]
      · simp [instantiate, outline, nominal?, resolveAlias, Outline.map, Root.map,
          Function.comp_def, length_params_instantiateSignature, List.flatMap_map,
          List.map_flatMap, positions_instantiateSignature]
      · have hinstance := nominal?_rename_eq_none hs hbase
        rw [instantiate, applyTo_of_nominal?_eq_none hinstance, outline_written hinstance,
          outline_written hbase, instantiateAll_eq]
        rfl

-- A type is compared as it is written, or by its root and its parts.
theorem writtenParts_cases (t : Ty) :
    (∃ base args, base.nominal? = none ∧ t.outline = ⟨some (.written base args), [], false⟩ ∧
      t.writtenParts = [.applied base args]) ∨
    (∀ f, t.outline.root.map (Root.map f) = t.outline.root) ∧
      (t.outline.root = none ∨ t.outline.bare = true → t.outline.parts = []) ∧
      t.writtenParts = t.outline.parts.flatMap writtenParts := by
  cases hn : t.nominal? with
  | some n =>
      rw [outline_nominal hn]
      refine .inr ⟨fun f => rfl, fun h => ?_, writtenParts_nominal hn⟩
      exact (declared_of_bare hn (h.resolve_left (by simp))).1
  | none =>
      rw [← outline_resolveAlias, ← writtenParts_resolveAlias]
      obtain hr | ⟨kind, hr⟩ | ⟨name, hr⟩ | ⟨members, hr⟩ | ⟨sig, hr⟩ | ⟨sigs, hr⟩ |
        ⟨base, args, hr, hbase⟩ := resolveAlias_cases hn <;> rw [hr]
      · exact .inr ⟨fun f => rfl, fun _ => rfl, rfl⟩
      · exact .inr ⟨fun f => rfl, fun _ => rfl, rfl⟩
      · exact .inr ⟨fun f => rfl, fun _ => rfl, rfl⟩
      · exact .inr ⟨fun f => rfl, by simp [outline, nominal?, resolveAlias], writtenPartsOfAll_eq _⟩
      · exact .inr ⟨fun f => rfl, by simp [outline, nominal?, resolveAlias],
          writtenPartsOfSignature_eq _⟩
      · exact .inr ⟨fun f => rfl, by simp [outline, nominal?, resolveAlias],
          writtenPartsOfSignatures_eq _⟩
      · exact .inl ⟨base, args, hbase, outline_written hbase args, by simp [writtenParts, hbase]⟩

theorem equivalent_instantiate_iff (hs : s.IsRenaming) (t : Ty) :
    equivalent t (t.instantiate s) = true ↔ ∀ u ∈ t.writtenParts, u.instantiate s = u := by
  induction t using part_induction with
  | step t ih =>
      rw [equivalent_iff_outline, outline_rename hs]
      obtain ⟨base, args, hbase, hout, hwritten⟩ | ⟨hroot, hparts, hwritten⟩ :=
        writtenParts_cases t
      · have happlied : (Ty.applied base args).instantiate s =
            .applied (base.instantiate s) (args.map (instantiate s)) := by
          rw [instantiate, applyTo_of_nominal?_eq_none (nominal?_rename_eq_none hs hbase),
            instantiateAll_eq]
        simp [hout, hwritten, happlied, Outline.map, Root.map, allEquivalent, eq_comm]
      · have hall : allEquivalent t.outline.parts (t.outline.parts.map (instantiate s)) = true ↔
            ∀ u ∈ t.writtenParts, u.instantiate s = u := by
          have hparts := allEquivalent_map_iff id (instantiate s) t.outline.parts
          rw [List.map_id] at hparts
          rw [hparts, hwritten, List.forall_mem_flatMap]
          exact forall₂_congr ih
        simp only [Outline.map, hroot, hall]
        constructor
        · rintro (h | h | ⟨-, h | h | h⟩)
          · simp [hwritten, hparts (.inl h)]
          · simp [hwritten, hparts (.inl h)]
          · simp [hwritten, hparts (.inr h)]
          · simp [hwritten, hparts (.inr h)]
          · exact h
        · exact fun h => .inr (.inr ⟨trivial, .inr (.inr h)⟩)

-- Giving parameters other names makes no difference to a signature if and only if it leaves the
-- applications alone that are compared as they are written.
theorem renamed_iff_written_parts_kept (hs : s.IsRenaming) (t : Ty) :
    equivalent t (t.substitute s) = true ↔ ∀ u ∈ t.writtenParts, u.substitute s = u := by
  simp only [substitute]
  split
  · simp [equivalent_refl]
  · exact equivalent_instantiate_iff hs t

end Renaming

end Ty

theorem Substitution.isRenaming_ofList {entries : List (String × Ty)}
    (h : ∀ entry ∈ entries, entry.2.isParam = true) :
    Substitution.IsRenaming (Bindings.ofList entries) :=
  fun name t hbound => h (name, t) (Bindings.mem_of_get?_ofList hbound)

namespace Traversal

-- A function over the elements of any container, with its fallback.
def lifted : Ty := .applied (.param "M") [.string]

def signature : Ty :=
  .function (.plain [lifted, .function (.plain [.param "A"] (.param "B"))]
    (.anyOf [.unary .array (.param "B"), .inst "Pair" [.param "A", .param "B"]]))

-- The two parameters change places.
def exchange : Substitution := Bindings.ofList [("A", .param "B"), ("B", .param "A")]

def otherContainer : Substitution := Bindings.ofList [("M", .param "N")]

end Traversal

open Traversal in
-- The names of the two parameters do not count, while that of the container stays.
theorem exchanged_parameters_compare :
    exchange.IsRenaming ∧ signature.writtenParts = [lifted] ∧ lifted.substitute exchange = lifted ∧
      signature.substitute exchange ≠ signature ∧
      Ty.equivalent signature (signature.substitute exchange) = true := by
  have hs : exchange.IsRenaming := Substitution.isRenaming_ofList (by decide +kernel)
  have hwritten : signature.writtenParts = [lifted] := by decide +kernel
  have hlifted : lifted.substitute exchange = lifted := by decide +kernel
  refine ⟨hs, hwritten, hlifted, by decide +kernel, ?_⟩
  refine (Ty.renamed_iff_written_parts_kept hs signature).mpr ?_
  rw [hwritten, List.forall_mem_singleton]
  exact hlifted

open Traversal in
-- The name of a parameter that is applied does count.
theorem container_name_counts :
    otherContainer.IsRenaming ∧ Ty.equivalent lifted (lifted.substitute otherContainer) = false ∧
      Ty.equivalent signature (signature.substitute otherContainer) = false :=
  ⟨Substitution.isRenaming_ofList (by decide +kernel), by decide +kernel, by decide +kernel⟩

end Conformance
