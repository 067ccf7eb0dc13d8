import Conformance.Proofs.ConcreteTypes
import Conformance.Proofs.OverloadChoice

namespace Conformance

-- A parameter that is an interface takes what implements the interface, unless it is matched
-- first: an interface whose own parameters are left open, or which is applied through an alias,
-- takes only itself.

namespace Ty

theorem nominal?_of_asInterface? {t : Ty} {interface : String} {args : List Ty}
    (h : t.asInterface? = some (interface, args)) :
    ∃ bare, t.nominal? = some ⟨interface, .declared .interface, args, bare⟩ := by
  rw [asInterface?] at h
  rw [← nominal?_resolveAlias]
  split at h
  · rename_i params hresolved
    obtain ⟨rfl, rfl⟩ := Prod.mk.inj (Option.some.inj h)
    exact ⟨_, by rw [hresolved, nominal?]⟩
  · rename_i base own hresolved
    split at h
    · rename_i params hbase
      obtain ⟨rfl, rfl⟩ := Prod.mk.inj (Option.some.inj h)
      exact ⟨false, by rw [hresolved, nominal?, ← nominal?_resolveAlias base, hbase]; rfl⟩
    · cases h
  · cases h

-- Whether a type is an interface of the name, with whatever arguments.
def isInterface (interface : String) (t : Ty) : Bool :=
  t.nominal?.any fun n => n.name = interface && n.head = .declared .interface

-- An interface as a target takes only itself.
theorem isInterface_of_unify {target t : Ty} {interface : String} {args : List Ty}
    (htarget : target.asInterface? = some (interface, args)) {s : Substitution}
    (h : (unify target t s).isSome) :
    t.resolveAlias.isUnknown = true ∨ t.isInterface interface = true := by
  obtain ⟨bare, hhead⟩ := nominal?_of_asInterface? htarget
  obtain ⟨m, hm⟩ := Option.isSome_iff_exists.mp h
  rw [unify_nominal hhead (by simp)] at hm
  obtain ⟨hunknown, -⟩ | ⟨n, hn, hm⟩ := matchNominal_cases hm
  · exact .inl hunknown
  · refine .inr ?_
    split at hm
    · rename_i hsame
      simpa [isInterface, hn, Nominal.sameHead] using hsame.1
    · cases hm

theorem unify_of_unifyAll_pairs {pairs : List (Ty × Ty)} {s : Substitution}
    (h : (unifyAll (pairs.map Prod.fst) (pairs.map Prod.snd) s).isSome) :
    ∀ pair ∈ pairs, ∃ s', (unify pair.1 pair.2 s').isSome := by
  induction pairs generalizing s with
  | nil => simp
  | cons first rest ih =>
      obtain ⟨hfirst, s', hrest⟩ := unifyAll_cons_isSome h
      exact List.forall_mem_cons.mpr ⟨⟨s, hfirst⟩, ih hrest⟩

end Ty

namespace Resolver

variable {r : Resolver} {name : String} {sig : Signature Ty} {args : List Ty}

-- A parameter is an interface that its argument implements.
def Serves (r : Resolver) (param arg : Ty) : Prop :=
  ∃ interface own, param.asInterface? = some (interface, own) ∧
    (r.implements arg interface own).isResolved = true

theorem accept?_of_serves {param arg : Ty} (hserves : r.Serves param arg)
    (h : param.isMatchedWith arg = false) (s : Substitution) :
    ∃ m, r.accept? param arg s = some m ∧ m.substitution = s := by
  obtain ⟨interface, own, hinterface, hresolved⟩ := hserves
  rw [accept?]
  by_cases hunknown : arg.isUnknown = true
  · exact ⟨_, if_pos hunknown, rfl⟩
  · have huses : param.usesParams = false := by simpa [Ty.isMatchedWith, hunknown] using h
    rw [if_neg hunknown, huses, if_neg Bool.false_ne_true, hinterface]
    by_cases hassigns : r.env.assigns param arg = true
    · exact ⟨_, if_pos hassigns, rfl⟩
    · exact ⟨_, by rw [if_neg hassigns]; exact if_pos hresolved, rfl⟩

-- Arguments that implement their parameters fail only where they are matched.
theorem acceptAll?_isSome_iff {params args : List Ty} (hlength : args.length = params.length)
    (hserves : ∀ pair ∈ params.zip args, r.Serves pair.1 pair.2) (s : Substitution) :
    (r.acceptAll? params args s).isSome ↔
      (Ty.unifyAll ((matchedPairs params args).map Prod.fst)
        ((matchedPairs params args).map Prod.snd) s).isSome := by
  induction params generalizing args s with
  | nil => simp [acceptAll?, matchedPairs, Ty.unifyAll]
  | cons param params ih =>
      obtain ⟨arg, args, rfl⟩ := List.exists_cons_of_length_eq_add_one hlength
      rw [List.zip_cons_cons] at hserves
      obtain ⟨hfirst, hrest⟩ := List.forall_mem_cons.mp hserves
      have ih := ih (Nat.succ.inj hlength) hrest
      have hcounted (found : Option Match) (points : Nat) :
          (found.bind fun m => some (m.addScore points)).isSome = found.isSome := by
        cases found <;> rfl
      rw [acceptAll?, matchedPairs_cons]
      cases hmatched : param.isMatchedWith arg with
      | true =>
          rw [accept?_matched hmatched, if_pos rfl, List.map_cons, List.map_cons, Ty.unifyAll,
            List.headD_cons, List.tail_cons]
          cases Ty.unify param arg s with
          | none => exact Iff.rfl
          | some m => simpa [hcounted] using ih m.substitution
      | false =>
          obtain ⟨m, hm, hs⟩ := accept?_of_serves hfirst hmatched s
          rw [hm, if_neg Bool.false_ne_true]
          simpa [hs, hcounted] using ih s

-- A single function is called exactly if it applies.
theorem call_function_isOk_iff :
    (∃ selection, r.call name (.function sig) args = .ok selection) ↔
      (r.applies? name sig args).isSome := by
  have hcandidates : r.callCandidates name [sig] args =
      ((r.applies? name sig args).map fun found => CallCandidate.mk 0 sig found).toList := by
    rw [callCandidates]
    cases h : r.applies? name sig args <;> simp [h]
  change (∃ selection, r.selectOverload name [sig] args = .ok selection) ↔ _
  rw [selectOverload, hcandidates]
  cases r.applies? name sig args with
  | none => simp [CallCandidate.ranked]
  | some found => simp [CallCandidate.ranked, CallCandidate.insertRanked]

theorem applies?_unconstrained (hgenerics : sig.generics = []) (hwheres : sig.wheres = [])
    (hlength : args.length = sig.params.length) :
    r.applies? name sig args = r.acceptAll? sig.params args ∅ := by
  have harity : sig.acceptsArity args.length = true := by simp [Signature.acceptsArity, hlength]
  rw [applies?, if_pos harity, hgenerics, hwheres]
  cases r.acceptAll? sig.params args ∅ <;> rfl

end Resolver

-- A function whose parameters are interfaces that the arguments implement is called exactly if
-- the arguments match where they are matched first, and this they do only as types of that very
-- interface.
theorem interface_arguments_accepted_iff {r : Resolver} {name : String} {sig : Signature Ty}
    {args : List Ty} (hgenerics : sig.generics = []) (hwheres : sig.wheres = [])
    (hlength : args.length = sig.params.length)
    (hserves : ∀ pair ∈ sig.params.zip args, r.Serves pair.1 pair.2) :
    ((∃ selection, r.call name (.function sig) args = .ok selection) ↔
      (Ty.unifyAll ((matchedPairs sig.params args).map Prod.fst)
        ((matchedPairs sig.params args).map Prod.snd) ∅).isSome) ∧
    ((∃ selection, r.call name (.function sig) args = .ok selection) →
      ∀ pair ∈ matchedPairs sig.params args, ∀ interface own,
        pair.1.asInterface? = some (interface, own) →
          pair.2.resolveAlias.isUnknown = true ∨ pair.2.isInterface interface = true) := by
  have hcall : (∃ selection, r.call name (.function sig) args = .ok selection) ↔
      (r.acceptAll? sig.params args ∅).isSome := by
    rw [Resolver.call_function_isOk_iff, Resolver.applies?_unconstrained hgenerics hwheres hlength]
  have hiff := hcall.trans (Resolver.acceptAll?_isSome_iff hlength hserves ∅)
  refine ⟨hiff, fun hcall pair hpair interface own hinterface => ?_⟩
  obtain ⟨s, hs⟩ := Ty.unify_of_unifyAll_pairs (hiff.mp hcall) pair hpair
  exact Ty.isInterface_of_unify hinterface hs

namespace Conversions

def into : InterfaceDecl := { name := "Into", generics := [⟨"T", []⟩] }

-- Numbers can be shown, and can be made into texts.
def resolver : Resolver where
  env := ((∅ : Environment).define "Show" (.interface { name := "Show" })).define "Into"
    (.interface into)
  registry := ⟨[
    { interface := { name := "Show" }, target := .i32 },
    { interface := into, target := .i32, args := [.string] }]⟩

-- What can be made into texts, with the interface as it is declared or as another name for it.
def intoText (interface : Ty) : Ty := .applied interface [.string]

def shown : Ty := .alias "Shown" (.declared .interface "Show" [])

def signature : Signature Ty := .plain [shown, intoText into.toTy, into.toTy] .string

def arguments : List Ty := [.i32, .i32, intoText into.toTy]

end Conversions

open Conversions in
-- The last parameter leaves the parameter of its interface open, and is given that interface.
theorem conversions_accepted :
    (∀ pair ∈ signature.params.zip arguments, resolver.Serves pair.1 pair.2) ∧
      (matchedPairs signature.params arguments).length = 1 ∧
      ∃ selection, resolver.call "join" (.function signature) arguments = .ok selection := by
  have hserves : ∀ pair ∈ signature.params.zip arguments, resolver.Serves pair.1 pair.2 := by
    rintro pair hpair
    rcases List.mem_cons.mp hpair with rfl | hpair
    · exact ⟨"Show", [], rfl, by decide +kernel⟩
    rcases List.mem_cons.mp hpair with rfl | hpair
    · exact ⟨"Into", [.string], rfl, by decide +kernel⟩
    · obtain rfl := List.mem_singleton.mp hpair
      exact ⟨"Into", [], rfl, by decide +kernel⟩
  have hlength : arguments.length = signature.params.length := rfl
  refine ⟨hserves, by decide +kernel, ?_⟩
  exact (interface_arguments_accepted_iff rfl rfl hlength hserves).1.mpr (by decide +kernel)

open Conversions in
-- A number can be made into a text, but it is refused where the interface is named without its
-- argument, and where the interface is applied by another name.
theorem implemented_interface_refused :
    resolver.Serves into.toTy .i32 ∧
      resolver.Serves (intoText (.alias "Conversion" into.toTy)) .i32 ∧
      (resolver.call "print" (.function (.plain [into.toTy] .string)) [.i32] =
        .error (.noMatchingOverload "print")) ∧
      resolver.call "print"
          (.function (.plain [intoText (.alias "Conversion" into.toTy)] .string)) [.i32] =
        .error (.noMatchingOverload "print") := by
  refine ⟨⟨"Into", [], rfl, ?_⟩, ⟨"Into", [.string], rfl, ?_⟩, ?_, ?_⟩ <;> decide +kernel

end Conformance
