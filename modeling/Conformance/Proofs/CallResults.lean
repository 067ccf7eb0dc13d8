import Conformance.Checker
import Conformance.Proofs.BoundNames
import Conformance.Proofs.DeclarationOrder
import Conformance.Proofs.OverloadChoice

namespace Conformance

-- The type of a call is the declared result, with what the arguments say about the parameters of
-- the function. A parameter about which they say nothing stays in it.

namespace Ty

-- Arguments without parameters bind parameters to types without parameters.

theorem paramNames_args : {t : Ty} → {n : Nominal} → t.nominal? = some n → ∀ arg ∈ n.args,
    arg.paramNames ⊆ t.paramNames
  | .declared _ _ _, _, hn => by
      obtain rfl := Option.some.inj hn
      simp
  | .inst _ args, _, hn => by
      obtain rfl := Option.some.inj hn
      exact fun arg harg p hp => mem_paramNamesOfAll.mpr ⟨arg, harg, hp⟩
  | .alias _ target, _, hn => paramNames_args (t := target) hn
  | .applied base args, _, hn => by
      obtain ⟨head, -, rfl⟩ := Option.map_eq_some_iff.mp hn
      exact fun arg harg p hp =>
        List.mem_append_right _ (mem_paramNamesOfAll.mpr ⟨arg, harg, hp⟩)
  | .nullable inner, _, hn | .unary _ inner, _, hn => by
      obtain rfl := Option.some.inj hn
      simp [paramNames]
  | .map key value, _, hn => by
      obtain rfl := Option.some.inj hn
      simp [paramNames]

theorem closed_hereditary : Hereditary fun t => t.paramNames = [] where
  unknown := rfl
  resolveAlias {t} h := by rwa [paramNames_resolveAlias]
  args h hn arg harg := List.subset_nil.mp (h ▸ paramNames_args hn arg harg)
  members {members} h t ht := by
    refine List.subset_nil.mp fun p hp => ?_
    rw [← h]
    exact mem_paramNamesOfAll.mpr ⟨t, ht, hp⟩
  params {sig} h t ht := by
    obtain ⟨_, params, result, _⟩ := sig
    simp only [paramNames, paramNamesOfSignature, List.append_eq_nil_iff] at h
    refine List.subset_nil.mp fun p hp => ?_
    rw [← h.1.1.2]
    exact mem_paramNamesOfAll.mpr ⟨t, ht, hp⟩
  result {sig} h := by
    obtain ⟨_, params, result, _⟩ := sig
    simp only [paramNames, paramNamesOfSignature, List.append_eq_nil_iff] at h
    exact h.1.2

theorem closed_constructor? {t constructor : Ty} (ht : t.paramNames = [])
    (h : t.resolveAlias.constructor? = some constructor) : constructor.paramNames = [] := by
  rw [← paramNames_resolveAlias] at ht
  generalize t.resolveAlias = actual at h ht
  cases actual with
  | applied base args =>
      obtain rfl := Option.some.inj h
      exact (List.append_eq_nil_iff.mp ht).1
  | inst | unary | map =>
      obtain rfl := Option.some.inj h
      rfl
  | _ => cases h

end Ty

-- A substitution by types without parameters.
def Substitution.Closed (s : Substitution) : Prop :=
  s.Values (fun _ => True) fun t => t.paramNames = []

namespace Ty

variable {s : Substitution}

theorem unify_closed {target t : Ty} (ht : t.paramNames = []) (hs : s.Closed) {m : Match}
    (h : unify target t s = some m) : m.substitution.Closed := by
  refine unify_keeps closed_hereditary target ⟨?_, ?_⟩ ht hs m h
  · exact fun name _ value s hvalue _ hs => bindParam_values (fun _ => hvalue) hs
  · exact fun name _ _ value constructor s hvalue hconstructor _ hs =>
      bindParam_values (fun _ => closed_constructor? hvalue hconstructor) hs

theorem instantiate_closed_names {t : Ty} (ht : t.paramNames = []) :
    (t.instantiate s).paramNames = [] := by
  refine List.eq_nil_iff_forall_not_mem.mpr (paramNames_instantiate t ?_)
  simp [ht]

theorem paramNames_applyTo {base : Ty} (hbase : base.paramNames = []) (args : List Ty) :
    (applyTo base args).paramNames = paramNamesOfAll args := by
  rw [applyTo.eq_def]
  split
  · simp [paramNames, paramNamesOfAll]
  · simp [paramNames, paramNamesOfAll]
  · rw [paramNames, hbase, List.nil_append]

mutual
-- Types in which what is applied is a parameter or mentions none, and whose functions mention
-- parameters only in their parameters and results.
def hasPlainHeads : Ty → Bool
  | .inst _ args => allPlainHeads args
  | .anyOf members => allPlainHeads members
  | .alias _ target => target.hasPlainHeads
  | .applied base args => (base.isParam || base.paramNames.isEmpty) && allPlainHeads args
  | .nullable inner => inner.hasPlainHeads
  | .function sig => signaturePlainHeads sig
  | .overload sigs => (paramNamesOfSignatures sigs).isEmpty
  | .unary _ arg => arg.hasPlainHeads
  | .map key value => key.hasPlainHeads && value.hasPlainHeads
  | _ => true
def allPlainHeads : List Ty → Bool
  | [] => true
  | t :: ts => t.hasPlainHeads && allPlainHeads ts
def signaturePlainHeads : Signature Ty → Bool
  | ⟨generics, params, result, wheres⟩ =>
      (paramNamesOfParams generics).isEmpty && (paramNamesOfWheres wheres).isEmpty &&
        allPlainHeads params && result.hasPlainHeads
end

-- A name that a substitution leaves as it is.
def isLeft (s : Substitution) (name : String) : Bool := (s.get? name).isNone

mutual
-- What is not bound stays, and what is bound disappears.
theorem paramNames_instantiate_eq (hs : s.Closed) : (t : Ty) → t.hasPlainHeads = true →
    (t.instantiate s).paramNames = t.paramNames.filter (isLeft s)
  | .unknown, _ | .scalar _, _ | .declared _ _ _, _ => rfl
  | .param name, _ => by
      rw [instantiate, paramNames]
      cases hget : s.get? name with
      | none => simp [paramNames, isLeft, hget]
      | some value => simp [isLeft, hget, hs name value trivial hget]
  | .inst _ args, h => paramNamesOfAll_instantiate_eq hs args h
  | .anyOf members, h => paramNamesOfAll_instantiate_eq hs members h
  | .alias _ target, h => paramNames_instantiate_eq hs target h
  | .applied base args, h => by
      rw [hasPlainHeads, Bool.and_eq_true, Bool.or_eq_true] at h
      have hargs := paramNamesOfAll_instantiate_eq hs args h.2
      rw [instantiate, paramNames, List.filter_append, ← hargs]
      obtain hbase | hbase := h.1
      · obtain ⟨name, rfl⟩ := eq_param_of_isParam hbase
        rw [instantiate, paramNames]
        cases hget : s.get? name with
        | none => simp [applyTo, paramNames, isLeft, hget]
        | some value =>
            rw [Option.getD_some, paramNames_applyTo (hs name value trivial hget)]
            simp [isLeft, hget]
      · have hnone : base.paramNames = [] := List.isEmpty_iff.mp hbase
        rw [paramNames_applyTo (instantiate_closed_names hnone), hnone]
        rfl
  | .nullable inner, h => paramNames_instantiate_eq hs inner h
  | .function sig, h => paramNamesOfSignature_instantiate_eq hs sig h
  | .overload sigs, h => by
      have hnone : paramNamesOfSignatures sigs = [] := List.isEmpty_iff.mp h
      rw [instantiate, paramNames, paramNames, hnone]
      refine List.eq_nil_iff_forall_not_mem.mpr (paramNames_instantiateSignatures sigs ?_)
      simp [hnone]
  | .unary _ arg, h => paramNames_instantiate_eq hs arg h
  | .map key value, h => by
      rw [hasPlainHeads, Bool.and_eq_true] at h
      rw [instantiate, paramNames, paramNames, List.filter_append,
        paramNames_instantiate_eq hs key h.1, paramNames_instantiate_eq hs value h.2]
theorem paramNamesOfAll_instantiate_eq (hs : s.Closed) : (ts : List Ty) →
    allPlainHeads ts = true →
    paramNamesOfAll (instantiateAll s ts) = (paramNamesOfAll ts).filter (isLeft s)
  | [], _ => rfl
  | t :: ts, h => by
      rw [allPlainHeads, Bool.and_eq_true] at h
      rw [instantiateAll, paramNamesOfAll, paramNamesOfAll, List.filter_append,
        paramNames_instantiate_eq hs t h.1, paramNamesOfAll_instantiate_eq hs ts h.2]
theorem paramNamesOfSignature_instantiate_eq (hs : s.Closed) : (sig : Signature Ty) →
    signaturePlainHeads sig = true →
    paramNamesOfSignature (instantiateSignature s sig) =
      (paramNamesOfSignature sig).filter (isLeft s)
  | ⟨generics, params, result, wheres⟩, h => by
      simp only [signaturePlainHeads, Bool.and_eq_true, List.isEmpty_iff] at h
      obtain ⟨⟨⟨hgenerics, hwheres⟩, hparams⟩, hresult⟩ := h
      have hgenerics' : paramNamesOfParams (instantiateParams s generics) = [] := by
        refine List.eq_nil_iff_forall_not_mem.mpr (paramNames_instantiateParams generics ?_)
        simp [hgenerics]
      have hwheres' : paramNamesOfWheres (instantiateWheres s wheres) = [] := by
        refine List.eq_nil_iff_forall_not_mem.mpr (paramNames_instantiateWheres wheres ?_)
        simp [hwheres]
      rw [instantiateSignature, paramNamesOfSignature, paramNamesOfSignature, hgenerics, hwheres,
        hgenerics', hwheres', paramNamesOfAll_instantiate_eq hs params hparams,
        paramNames_instantiate_eq hs result hresult]
      simp [List.filter_append]
end

end Ty

-- The functions that a callee may mean.
def Ty.overloads (callee : Ty) : List (Signature Ty) :=
  match callee.resolveAlias with
  | .function sig => [sig]
  | .overload sigs => sigs
  | _ => []

-- The parameters about which the arguments of a call say something.
def determinedNames (params args : List Ty) : List String :=
  (matchedPairs params args).flatMap fun pair => Ty.boundNames pair.1 pair.2

theorem determinedNames_cons (param arg : Ty) (params args : List Ty) :
    determinedNames (param :: params) (arg :: args) =
      determinedNames [param] [arg] ++ determinedNames params args := by
  simp only [determinedNames, ← List.flatMap_append]
  congr 1
  rw [matchedPairs_cons, matchedPairs_cons]
  split <;> rfl

namespace Resolver

open Substitution (Binds)

variable {r : Resolver} {name : String} {callee : Ty} {args : List Ty}

theorem accept?_binds {param arg : Ty} {s : Substitution} {m : Match}
    (h : r.accept? param arg s = some m) :
    Binds (param.isUnionFree = true) (determinedNames [param] [arg]) s m.substitution := by
  obtain ⟨hmatched, found, hfound, hm⟩ | ⟨hmatched, hm⟩ := accept?_cases h
  · rw [← hm]
    simpa [determinedNames, matchedPairs, hmatched] using Ty.unify_binds param hfound
  · rw [hm]
    simpa [determinedNames, matchedPairs, hmatched] using Binds.refl _ s

theorem accept?_closed {param arg : Ty} (harg : arg.paramNames = []) {s : Substitution}
    (hs : s.Closed) {m : Match} (h : r.accept? param arg s = some m) : m.substitution.Closed := by
  obtain ⟨-, found, hfound, hm⟩ | ⟨-, hm⟩ := accept?_cases h
  · exact hm ▸ Ty.unify_closed harg hs hfound
  · rwa [hm]

-- The arguments of a call are accepted one after the other. What holds without an argument, and
-- goes on to hold with one more in front, holds of all of them.
theorem acceptAll?_run {R : List Ty → List Ty → Substitution → Substitution → Prop}
    (hdone : ∀ params args s, params.zip args = [] → R params args s s)
    (hstep : ∀ param params arg args s first s', r.accept? param arg s = some first →
      R params args first.substitution s' → R (param :: params) (arg :: args) s s')
    {params args : List Ty} {s : Substitution} {m : Match}
    (h : r.acceptAll? params args s = some m) : R params args s m.substitution := by
  induction params generalizing args s m with
  | nil =>
      rw [acceptAll?.eq_def] at h
      obtain rfl := Option.some.inj h
      exact hdone [] args s List.zip_nil_left
  | cons param params ih =>
      cases args with
      | nil =>
          rw [acceptAll?.eq_def] at h
          obtain rfl := Option.some.inj h
          exact hdone (param :: params) [] s List.zip_nil_right
      | cons arg args =>
          rw [acceptAll?] at h
          obtain ⟨first, hfirst, h⟩ := Option.bind_eq_some_iff.mp h
          obtain ⟨found, hfound, h⟩ := Option.bind_eq_some_iff.mp h
          obtain rfl := Option.some.inj h
          exact hstep param params arg args s first _ hfirst (ih (m := found) hfound)

theorem acceptAll?_binds {params args : List Ty} {s : Substitution} {m : Match}
    (h : r.acceptAll? params args s = some m) :
    Binds (∀ param ∈ params, param.isUnionFree = true) (determinedNames params args) s
      m.substitution := by
  refine acceptAll?_run (R := fun params args => Binds (∀ param ∈ params, param.isUnionFree = true)
    (determinedNames params args)) ?_ ?_ h
  · intro params args s hzip
    rw [determinedNames, matchedPairs, hzip]
    exact .refl _ s
  · intro param params arg args s first s' hfirst hrest
    rw [determinedNames_cons]
    exact ((accept?_binds hfirst).trans hrest).mono List.forall_mem_cons.mp

theorem acceptAll?_closed {params args : List Ty} (hargs : ∀ arg ∈ args, arg.paramNames = [])
    {s : Substitution} (hs : s.Closed) {m : Match} (h : r.acceptAll? params args s = some m) :
    m.substitution.Closed := by
  refine acceptAll?_run (R := fun _ args s s' => (∀ arg ∈ args, arg.paramNames = []) → s.Closed →
    s'.Closed) ?_ ?_ h hargs hs
  · exact fun _ _ _ _ _ hs => hs
  · intro param params arg args s first s' hfirst hrest hargs hs
    obtain ⟨harg, hargs⟩ := List.forall_mem_cons.mp hargs
    exact hrest hargs (accept?_closed harg hs hfirst)

theorem acceptAll?_of_applies? {sig : Signature Ty} {m : Match}
    (h : r.applies? name sig args = some m) : r.acceptAll? sig.params args ∅ = some m := by
  rw [applies?] at h
  split at h
  · obtain ⟨found, hfound, h⟩ := Option.bind_eq_some_iff.mp h
    dsimp only at h
    split at h
    · rwa [← Option.some.inj h]
    · cases h
  · cases h

-- The function that a call selects accepts the arguments, and is taken as they say.
theorem accepted_of_call {selection : Selection} (hcall : r.call name callee args = .ok selection)
    {sig : Signature Ty} (hsig : callee.overloads[selection.index]? = some sig) :
    ∃ m, r.acceptAll? sig.params args ∅ = some m ∧ m.substitution = selection.substitution ∧
      sig.substitute m.substitution = selection.function := by
  have hselect : r.selectOverload name callee.overloads args = .ok selection := by
    rw [call] at hcall
    rw [Ty.overloads] at hsig ⊢
    generalize callee.resolveAlias = actual at hcall hsig ⊢
    cases actual with
    | unknown => cases hsig
    | _ => exact hcall
  obtain ⟨best, hbest, -, rfl⟩ := Decides.ok_iff.mp (selectOverload_eq_iff.mp hselect)
  obtain rfl : best.sig = sig := Option.some.inj (hbest.declared.symm.trans hsig)
  exact ⟨best.found, acceptAll?_of_applies? hbest.applies, rfl, rfl⟩

end Resolver

theorem Signature.result_substitute (sig : Signature Ty) (s : Substitution) :
    (sig.substitute s).result = sig.result.substitute s := by
  obtain ⟨generics, params, result, wheres⟩ := sig
  rw [substitute, Ty.substitute]
  split <;> rfl

namespace Ty

variable {s : Substitution}

theorem left_of_mem_substitute (hs : s.Closed) {t : Ty} {p : String}
    (hp : p ∈ (t.substitute s).paramNames) : p ∈ t.paramNames ∧ s.get? p = none := by
  rw [substitute] at hp
  split at hp
  case isTrue hempty => exact ⟨hp, Bindings.isEmpty_iff.mp hempty p⟩
  case isFalse =>
      refine paramNames_instantiate (P := fun p => p ∈ t.paramNames ∧ s.get? p = none) t ?_ p hp
      intro name hname p hp
      cases hget : s.get? name with
      | none =>
          simp only [standIn, hget, Option.getD_none, paramNames, List.mem_singleton] at hp
          exact hp ▸ ⟨hname, hget⟩
      | some value => simp [standIn, hget, hs name value trivial hget] at hp

theorem mem_substitute_of_left (hs : s.Closed) {t : Ty} (ht : t.hasPlainHeads = true) {p : String}
    (hp : p ∈ t.paramNames) (hleft : s.get? p = none) : p ∈ (t.substitute s).paramNames := by
  rw [substitute]
  split
  · exact hp
  · rw [paramNames_instantiate_eq hs t ht]
    exact List.mem_filter.mpr ⟨hp, by simp [isLeft, hleft]⟩

end Ty

theorem Checker.checkCall_ok {checker : Checker} {name : String} {callee : Ty} {args : List Ty}
    {selection : Selection} (hcallee : checker.env.lookup? name = some (.function callee))
    (hcall : checker.resolver.call name callee args = .ok selection) (node : Option Span) :
    checker.checkCall name args node = (selection.function.result, checker) := by
  rw [checkCall, hcallee]
  dsimp only
  rw [hcall]
  rfl

-- The parameters in the type of a call are those of the declared result that the arguments leave
-- open. Which ones they do not leave open can be read off the types, unions apart.
theorem call_result_keeps_undetermined (checker : Checker) {name : String} {callee : Ty}
    (hcallee : checker.env.lookup? name = some (.function callee)) {args : List Ty}
    (hargs : ∀ arg ∈ args, arg.paramNames = []) {selection : Selection}
    (hcall : checker.resolver.call name callee args = .ok selection) {sig : Signature Ty}
    (hsig : callee.overloads[selection.index]? = some sig) (node : Option Span) :
    (∀ p ∈ (checker.checkCall name args node).1.paramNames,
      p ∈ sig.result.paramNames ∧ selection.substitution.get? p = none) ∧
    (sig.result.hasPlainHeads = true → ∀ p ∈ sig.result.paramNames,
      selection.substitution.get? p = none →
        p ∈ (checker.checkCall name args node).1.paramNames) ∧
    (∀ p ∈ determinedNames sig.params args, (selection.substitution.get? p).isSome) ∧
    ((∀ param ∈ sig.params, param.isUnionFree = true) → ∀ p,
      (selection.substitution.get? p).isSome → p ∈ determinedNames sig.params args) := by
  obtain ⟨m, haccept, hsubstitution, hfunction⟩ := Resolver.accepted_of_call hcall hsig
  have hbinds := Resolver.acceptAll?_binds haccept
  have hclosed := Resolver.acceptAll?_closed hargs (fun _ _ _ hget => by cases hget) haccept
  rw [Checker.checkCall_ok hcallee hcall, ← hfunction, Signature.result_substitute,
    ← hsubstitution]
  refine ⟨fun p hp => Ty.left_of_mem_substitute hclosed hp,
    fun hplain p hp hleft => Ty.mem_substitute_of_left hclosed hplain hp hleft,
    hbinds.binds, fun hunions p hbound => ?_⟩
  -- nothing is bound before the first argument
  exact (hbinds.only hunions p hbound).resolve_left fun hempty => by cases hempty

namespace Entries

open Catalogue (named)

def unbounded (names : List String) : List (TypeParam TypeExpr) := names.map (⟨·, []⟩)

def entry : Item := .struct ⟨"Entry", unbounded ["K", "V"], [], [], default⟩

def keyed : TypeExpr := .generic (named "Entry") [named "K", named "V"] default

def functionItem (name : String) (generics : List String) (params : List TypeExpr)
    (result : TypeExpr) : Item :=
  .function ⟨name, unbounded generics, params.map (⟨"_", some ·⟩), some result, [], true, default⟩

-- An entry may be stored without a value.
def store : Item :=
  functionItem "store" ["K", "V"] [named "K", .nullable (named "V") default] keyed

def value : Item := functionItem "value" ["K", "V"] [keyed] (named "V")

def make : Item := functionItem "make" ["T"] [] (named "T")

def checker : Checker := .ofProgram [entry, store, value, make] true {}

def entryOf (key value : Ty) : Ty := .applied (.declared .struct "Entry" ["K", "V"]) [key, value]

def storeSignature : Signature Ty where
  generics := [⟨"K", []⟩, ⟨"V", []⟩]
  params := [.param "K", .nullable (.param "V")]
  result := entryOf (.param "K") (.param "V")
  wheres := []

-- The function as it is taken when a text is stored without a value.
def stored : Selection where
  index := 0
  function := storeSignature.substitute (Bindings.ofList [("K", .string)])
  substitution := Bindings.ofList [("K", .string)]
  score := 2

end Entries

open Entries in
-- The key is determined and disappears, the value is not and stays.
theorem stored_key_disappears :
    determinedNames storeSignature.params [.string, .nil] = ["K"] ∧
      (checker.checkCall "store" [.string, .nil] none).1 = entryOf .string (.param "V") ∧
      ∀ p ∈ (checker.checkCall "store" [.string, .nil] none).1.paramNames, p ≠ "K" := by
  have hdetermined : determinedNames storeSignature.params [.string, .nil] = ["K"] := by
    decide +kernel
  have hcallee : checker.env.lookup? "store" = some (.function (.function storeSignature)) := by
    decide +kernel
  have hargs : ∀ arg ∈ [Ty.string, Ty.nil], arg.paramNames = [] := by decide
  have hcall : checker.resolver.call "store" (.function storeSignature) [.string, .nil] =
      .ok stored := by decide +kernel
  refine ⟨hdetermined, by decide +kernel, ?_⟩
  obtain ⟨hleft, -, hbound, -⟩ :=
    call_result_keeps_undetermined checker hcallee hargs hcall rfl none
  rintro p hp rfl
  have hkey := hbound "K" (by simp [hdetermined])
  rw [(hleft "K" hp).2] at hkey
  cases hkey

open Entries in
-- A parameter of the function shows in the type of the call if it stands in the result alone, if
-- nothing is given for it, if nothing is known about the argument, or if the argument is a
-- constructor without its own arguments.
theorem undetermined_parameter_shown :
    (checker.checkCall "make" [] none).1 = .param "T" ∧
      (checker.checkCall "store" [.string] none).1 = entryOf .string (.param "V") ∧
      (checker.checkCall "store" [.unknown, .string] none).1 = entryOf (.param "K") .string ∧
      (checker.checkCall "value" [.declared .struct "Entry" ["K", "V"]] none).1 = .param "V" := by
  refine ⟨?_, ?_, ?_, ?_⟩ <;> decide +kernel

end Conformance
