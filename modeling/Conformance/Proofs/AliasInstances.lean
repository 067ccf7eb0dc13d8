import Conformance.Proofs.AliasMatching
import Conformance.Proofs.Instantiation

namespace Conformance

namespace Ty

mutual
-- A type whose instances look the same if what is put in looks the same: parameters stand
-- neither inside unions and overload sets, which are compared as written, nor for the
-- constructor of an application.
def isRegular : Ty → Bool
  | .inst _ args => allRegular args
  | .alias _ target => target.isRegular
  | .applied base args => base.nominal?.isSome && base.isRegular && allRegular args
  | .nullable inner => inner.isRegular
  | .unary _ arg => arg.isRegular
  | .map key value => key.isRegular && value.isRegular
  | .anyOf members => (paramNamesOfAll members).isEmpty
  | .overload sigs => (paramNamesOfSignatures sigs).isEmpty
  | .function sig => signatureRegular sig
  | _ => true
def allRegular : List Ty → Bool
  | [] => true
  | t :: ts => t.isRegular && allRegular ts
def signatureRegular : Signature Ty → Bool
  | ⟨generics, params, result, wheres⟩ =>
      (paramNamesOfParams generics).isEmpty && allRegular params && result.isRegular &&
        (paramNamesOfWheres wheres).isEmpty
end

theorem unalias_alias_congr (name : String) {a b : Ty} (h : a.unalias = b.unalias) :
    (Ty.alias name a).unalias = (Ty.alias name b).unalias := by
  rw [unalias, unalias, h]

theorem isAlias_applyTo (base : Ty) (args : List Ty) : (applyTo base args).isAlias = false := by
  fun_cases applyTo base args <;> rfl

theorem isSome_nominal?_instantiate (s : Substitution) (t : Ty) (h : t.nominal?.isSome) :
    (t.instantiate s).nominal?.isSome := by
  obtain ⟨n, hn⟩ := Option.isSome_iff_exists.mp h
  rw [nominal?_instantiate s hn]
  rfl

-- Instantiation turns nothing into an alias except a parameter.
theorem isAlias_instantiate (s : Substitution) (t : Ty) (h : t.nominal?.isSome) :
    (t.instantiate s).isAlias = t.isAlias := by
  cases t with
  | param => cases h
  | applied base args => exact isAlias_applyTo _ _
  | _ => rfl

theorem applied_alike {x y : Ty} {xs ys : List Ty} (hx : x.nominal?.isSome)
    (h : x.unalias = y.unalias) (hargs : xs.map unalias = ys.map unalias) :
    (Ty.applied x xs).unalias = (Ty.applied y ys).unalias := by
  have hy : y.nominal?.isSome := by
    have hview := congrArg (fun t => t.nominal?.isSome) h
    simpa [nominal?_unalias, hx] using hview.symm
  simp [unalias, hx, hy, h, hargs]

theorem applyTo_unary_alike (constructor : Unary) {x y : Ty} {xs ys : List Ty}
    (h : x.unalias = y.unalias) (hargs : xs.map unalias = ys.map unalias) :
    (applyTo (.unary constructor x) xs).unalias = (applyTo (.unary constructor y) ys).unalias := by
  have happlied : (Ty.applied (.unary constructor x) xs).unalias =
      (Ty.applied (.unary constructor y) ys).unalias :=
    applied_alike rfl (by simp [unalias, h]) hargs
  rcases xs with _ | ⟨a, _ | ⟨c, xs⟩⟩ <;> rcases ys with _ | ⟨b, _ | ⟨d, ys⟩⟩ <;>
    first
    | exact happlied
    | (simp at hargs; done)
    | simpa [applyTo, unalias] using hargs

theorem applyTo_map_alike {k l v w : Ty} {xs ys : List Ty} (hkey : k.unalias = l.unalias)
    (hvalue : v.unalias = w.unalias) (hargs : xs.map unalias = ys.map unalias) :
    (applyTo (.map k v) xs).unalias = (applyTo (.map l w) ys).unalias := by
  have happlied : (Ty.applied (.map k v) xs).unalias = (Ty.applied (.map l w) ys).unalias :=
    applied_alike rfl (by simp [unalias, hkey, hvalue]) hargs
  rcases xs with _ | ⟨a, _ | ⟨c, _ | ⟨e, xs⟩⟩⟩ <;>
    rcases ys with _ | ⟨b, _ | ⟨d, _ | ⟨f, ys⟩⟩⟩ <;>
    first
    | exact happlied
    | (simp at hargs; done)
    | simpa [applyTo, unalias] using hargs

-- Of two constructors that look the same, either both are built in or none is.
theorem applyTo_alike {x y : Ty} {xs ys : List Ty} (hx : x.nominal?.isSome)
    (halias : x.isAlias = y.isAlias) (h : x.unalias = y.unalias)
    (hargs : xs.map unalias = ys.map unalias) :
    (applyTo x xs).unalias = (applyTo y ys).unalias := by
  have happlied := applied_alike hx h hargs
  cases hcase : x.isAlias with
  | true =>
      rw [hcase] at halias
      cases x with
      | «alias» =>
          cases y with
          | «alias» => exact happlied
          | _ => cases halias
      | _ => cases hcase
  | false =>
      have hcognate := cognate_of_not_isAlias hcase (halias ▸ hcase) h
      cases hcognate with
      | same =>
          cases x with
          | unary constructor arg => exact applyTo_unary_alike constructor rfl hargs
          | map key value => exact applyTo_map_alike rfl rfl hargs
          | _ => exact happlied
      | unary constructor harg => exact applyTo_unary_alike constructor harg hargs
      | map hkey hvalue => exact applyTo_map_alike hkey hvalue hargs
      | _ => exact happlied

section Instances

variable {s s' : Substitution}

theorem get?_alike (hs : s.map unalias = s'.map unalias) (name : String) :
    (s.get? name = none ∧ s'.get? name = none) ∨
      ∃ x y, s.get? name = some x ∧ s'.get? name = some y ∧ x.unalias = y.unalias := by
  have hget : (s.get? name).map unalias = (s'.get? name).map unalias := by
    rw [← Bindings.get?_map, ← Bindings.get?_map, hs]
  cases hx : s.get? name <;> cases hy : s'.get? name <;> simp_all

variable (s s') in
theorem get?_eq_of_isEmpty {names : List String} (h : names.isEmpty = true) :
    ∀ name ∈ names, s.get? name = s'.get? name := by
  simp [List.isEmpty_iff.mp h]

mutual
theorem instantiate_alike (hs : s.map unalias = s'.map unalias) : (t : Ty) → t.isRegular = true →
    (t.instantiate s).unalias = (t.instantiate s').unalias
  | .unknown, _ | .scalar _, _ | .declared _ _ _, _ => rfl
  | .param name, _ => by
      rw [instantiate, instantiate]
      obtain ⟨hx, hy⟩ | ⟨x, y, hx, hy, hxy⟩ := get?_alike hs name
      · rw [hx, hy]
      · rw [hx, hy]
        exact hxy
  | .inst _ args, h => by
      simp only [instantiate, unalias, unaliasAll_eq, instantiateAll_alike hs args h]
  | .anyOf members, h => by
      rw [instantiate_congr (.anyOf members) (get?_eq_of_isEmpty s s' h)]
  | .alias name target, h => unalias_alias_congr name (instantiate_alike hs target h)
  | .applied base args, h => by
      simp only [isRegular, Bool.and_eq_true] at h
      obtain ⟨⟨hnominal, hbase⟩, hargs⟩ := h
      rw [instantiate, instantiate]
      refine applyTo_alike (isSome_nominal?_instantiate s base hnominal) ?_
        (instantiate_alike hs base hbase) (instantiateAll_alike hs args hargs)
      rw [isAlias_instantiate s base hnominal, isAlias_instantiate s' base hnominal]
  | .nullable inner, h => by
      simp only [instantiate, unalias, instantiate_alike hs inner h]
  | .function sig, h => by
      simp only [instantiate, unalias, instantiateSignature_alike hs sig h]
  | .overload sigs, h => by
      rw [instantiate_congr (.overload sigs) (get?_eq_of_isEmpty s s' h)]
  | .unary _ arg, h => by
      simp only [instantiate, unalias, instantiate_alike hs arg h]
  | .map key value, h => by
      simp only [isRegular, Bool.and_eq_true] at h
      simp only [instantiate, unalias, instantiate_alike hs key h.1, instantiate_alike hs value h.2]
theorem instantiateAll_alike (hs : s.map unalias = s'.map unalias) : (ts : List Ty) →
    allRegular ts = true →
    (instantiateAll s ts).map unalias = (instantiateAll s' ts).map unalias
  | [], _ => rfl
  | t :: ts, h => by
      simp only [allRegular, Bool.and_eq_true] at h
      simp only [instantiateAll, List.map_cons, instantiate_alike hs t h.1,
        instantiateAll_alike hs ts h.2]
theorem instantiateSignature_alike (hs : s.map unalias = s'.map unalias) :
    (sig : Signature Ty) → signatureRegular sig = true →
    unaliasSignature (instantiateSignature s sig) = unaliasSignature (instantiateSignature s' sig)
  | ⟨generics, params, result, wheres⟩, h => by
      simp only [signatureRegular, Bool.and_eq_true] at h
      obtain ⟨⟨⟨hgenerics, hparams⟩, hresult⟩, hwheres⟩ := h
      have hgenerics := instantiateParams_congr generics
        (get?_eq_of_isEmpty s s' hgenerics)
      have hwheres := instantiateWheres_congr wheres
        (get?_eq_of_isEmpty s s' hwheres)
      rw [instantiateSignature, instantiateSignature, unaliasSignature, unaliasSignature, hgenerics,
        hwheres, unaliasAll_eq, unaliasAll_eq, instantiateAll_alike hs params hparams,
        instantiate_alike hs result hresult]
end

theorem substitute_alike (hs : s.map unalias = s'.map unalias) {t : Ty} (h : t.isRegular = true) :
    (t.substitute s).unalias = (t.substitute s').unalias := by
  have hempty : s.isEmpty = s'.isEmpty := by
    rw [← Bindings.isEmpty_map unalias s, hs, Bindings.isEmpty_map]
  rw [substitute, substitute, hempty]
  split
  · rfl
  · exact instantiate_alike hs t h

end Instances


theorem bareConstructor_resolveAlias (env : Environment) (t : Ty) :
    t.resolveAlias.bareConstructor env = t.bareConstructor env := by
  fun_induction resolveAlias t with
  | case1 name target ih => exact ih
  | case2 => rfl

theorem bareConstructor_alike (env : Environment) : (a : Ty) → {b : Ty} →
    a.unalias = b.unalias → (a.bareConstructor env).unalias = (b.bareConstructor env).unalias
  | .alias name target, b, h => by
      rw [bareConstructor]
      cases hplain : target.unalias.isPlain with
      | true =>
          rw [unalias, hplain, if_pos rfl] at h
          exact bareConstructor_alike env target h
      | false =>
          have hself : target.isAlias = false := by
            rw [isPlain_unalias] at hplain
            cases target with
            | «alias» => cases hplain
            | _ => rfl
          have hresolved := resolveAlias_alike h
          rw [resolveAlias, resolveAlias_of_not_isAlias hself] at hresolved
          rw [← bareConstructor_resolveAlias env b]
          exact bareConstructor_alike env target hresolved
  | .applied base args, b, h => by
      have hcognate : Cognate (.applied base args) b.resolveAlias := cognate_resolveAlias h
      rw [← bareConstructor_resolveAlias env b]
      generalize b.resolveAlias = c at hcognate
      cases hcognate with
      | same => rfl
      | applied _ _ hbase =>
          rw [bareConstructor, bareConstructor]
          exact bareConstructor_alike env base hbase
  | .unknown, b, h | .scalar _, b, h | .param _, b, h | .declared _ _ _, b, h
  | .inst _ _, b, h | .anyOf _, b, h | .nullable _, b, h | .function _, b, h
  | .overload _, b, h | .unary _ _, b, h | .map _ _, b, h => by
      have hresolved := resolveAlias_alike h
      have hcognate := cognate_resolveAlias h
      rw [← bareConstructor_resolveAlias env b]
      simp only [resolveAlias] at hresolved hcognate
      generalize b.resolveAlias = c at hresolved hcognate
      cases hcognate <;> first | rfl | exact hresolved

theorem isParam_alike {a b : Ty} (h : a.unalias = b.unalias) : a.isParam = b.isParam := by
  rw [← isParam_unalias, h, isParam_unalias]

theorem unalias_eq_param_iff {t : Ty} {name : String} : t.unalias = .param name ↔ t = .param name := by
  constructor
  · intro h
    have hparam : t.isParam = true := by rw [← isParam_unalias, h]; rfl
    cases t with
    | param other => exact h
    | _ => cases hparam
  · rintro rfl
    rfl

end Ty

namespace Substitution

open Ty

variable {s s' : Substitution}

theorem isOpen_eq (s : Substitution) (name : String) :
    isOpen s name =
      match s.get? name with
      | none => true
      | some t => t.isUnknown || t = .param name := by
  rw [isOpen]
  cases s.get? name with
  | none => rfl
  | some t => cases t <;> simp [isUnknown]

theorem isOpen_alike (hs : s.map unalias = s'.map unalias) (name : String) :
    isOpen s name = isOpen s' name := by
  rw [isOpen_eq, isOpen_eq]
  obtain ⟨hx, hy⟩ | ⟨x, y, hx, hy, hxy⟩ := get?_alike hs name
  · rw [hx, hy]
  · have hparam : x = .param name ↔ y = .param name := by
      rw [← unalias_eq_param_iff, hxy, unalias_eq_param_iff]
    rw [hx, hy]
    simp [isUnknown_alike hxy, hparam]

theorem bindGenerics_alike (generics : List (TypeParam Ty)) {args : List Ty}
    (hargs : ∀ arg ∈ args, arg.isRegular = true) (hs : s.map unalias = s'.map unalias) :
    (bindGenerics generics args s).map unalias = (bindGenerics generics args s').map unalias := by
  induction generics generalizing args s s' with
  | nil => exact hs
  | cons generic generics ih =>
      rw [bindGenerics, bindGenerics]
      apply ih fun arg hmem => hargs arg (List.mem_of_mem_tail hmem)
      rw [Bindings.insertIfNew_map, Bindings.insertIfNew_map, hs]
      cases args with
      | nil => rfl
      | cons arg args =>
          have harg := substitute_alike hs (hargs arg List.mem_cons_self)
          simp [harg]

theorem bindConstructors_alike (env : Environment) (interface : InterfaceDecl) {a b : Ty}
    (h : a.unalias = b.unalias) (hs : s.map unalias = s'.map unalias) :
    (bindConstructors s env interface a).map unalias =
      (bindConstructors s' env interface b).map unalias := by
  have hconstructor := bareConstructor_alike env a h
  rw [bindConstructors, bindConstructors]
  simp only [isUnknown_alike hconstructor]
  split
  · exact hs
  · generalize interface.constructorPlaceholders env = names
    induction names generalizing s s' with
    | nil => exact hs
    | cons name names ih =>
        rw [List.foldl_cons, List.foldl_cons]
        apply ih
        rw [isOpen_alike hs name]
        split
        · rw [Bindings.insert_map, Bindings.insert_map, hs, hconstructor]
        · exact hs

theorem close_alike (generics : List (TypeParam Ty)) {m m' : Match}
    (hs : m.substitution.map unalias = m'.substitution.map unalias) :
    (m.close generics).substitution.map unalias = (m'.close generics).substitution.map unalias := by
  obtain ⟨s, score⟩ := m
  obtain ⟨s', score'⟩ := m'
  simp only [Match.close]
  induction generics generalizing s s' with
  | nil => exact hs
  | cons generic generics ih =>
      rw [List.foldl_cons, List.foldl_cons]
      apply ih
      rw [Bindings.insertIfNew_map, Bindings.insertIfNew_map, hs]

theorem complete_alike (env : Environment) {impl : Implementation}
    (hargs : ∀ arg ∈ impl.args, arg.isRegular = true) {a b : Ty} (h : a.unalias = b.unalias)
    (hs : s.map unalias = s'.map unalias) :
    (complete s env impl a).map unalias = (complete s' env impl b).map unalias := by
  have hself : (s.insert "Self" a).map unalias = (s'.insert "Self" b).map unalias := by
    rw [Bindings.insert_map, Bindings.insert_map, hs, h]
  have hgenerics := bindGenerics_alike impl.interface.generics hargs hself
  exact close_alike impl.generics (bindConstructors_alike env impl.interface h hgenerics)

end Substitution

end Conformance
