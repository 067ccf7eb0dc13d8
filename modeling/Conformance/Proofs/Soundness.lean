import Conformance.Proofs.Completion
import Conformance.Proofs.Exploration

namespace Conformance

-- What a resolution of a lookup stands on: an implementation from the registry that has
-- no name and serves the interface, a match of the subject with its target, arguments
-- that agree with those asked for, and obligations that hold while the goal is open.
structure Grounds (r : Resolver) (subject : Ty) (interface : String) (args : List Ty)
    (impl : Implementation) (resolution : Resolution) : Prop where
  registered : impl ∈ r.registry.entries
  unnamed : impl.name = none
  serves : impl.interfaceName = interface ∨
    interface = "PartialEq" ∧ impl.interfaceName = "Eq" ∨
    interface = "PartialOrd" ∧ impl.interfaceName = "Ord"
  -- The match gives the score, and what it has found is part of the substitution.
  matched : ∃ found,
    r.matchTargetIn (r.explorer (r.options.maxDepth - 1)) [Goal.lookup subject interface args]
        subject impl.target impl.generics = some found ∧
      resolution.score = found.score ∧
      ∀ name t, found.substitution.get? name = some t → name ≠ "Self" → t ≠ .unknown →
        t ≠ .param name → resolution.substitution.get? name = some t
  self : resolution.substitution.get? "Self" = some subject
  generics : ∀ generic ∈ impl.generics, (resolution.substitution.get? generic.name).isSome
  parameters : ∀ generic ∈ impl.interface.generics,
    (resolution.substitution.get? generic.name).isSome
  compatible : argsCompatible (impl.args.map (Ty.substitute · resolution.substitution)) args = true
  obligations : ∀ obligation ∈ impl.obligations,
    r.Holds (r.explorer (r.options.maxDepth - 1)) [Goal.lookup subject interface args]
      (obligation.substitute resolution.substitution)
  interface_eq : resolution.interface = interface
  label : resolution.label = impl.candidateLabel subject resolution.substitution
    (impl.args.map (Ty.substitute · resolution.substitution))
  isBuiltin : resolution.isBuiltin = impl.isBuiltin

theorem resolve_grounded (r : Resolver) (subject : Ty) (interface : String) (args : List Ty)
    (resolution : Resolution) (h : r.resolve subject interface args = .resolved resolution) :
    ∃ impl, Grounds r subject interface args impl resolution := by
  obtain ⟨survivor, hmem, rfl⟩ := Resolver.resolveIn_eq_resolved h
  obtain ⟨hcandidate, hassess⟩ := Resolver.mem_survivors hmem
  obtain ⟨hregistered, hunnamed, hserves⟩ := Registry.mem_candidates.mp hcandidate
  obtain ⟨found, hfound, -, hs, hargs, hscore, hcompatible, hholds⟩ :=
    (r.assess_survivor?_eq_some_iff _ _ _ _ _).mp hassess
  have hlabel : survivor.label subject = survivor.impl.candidateLabel subject
      survivor.substitution (survivor.impl.args.map (Ty.substitute · survivor.substitution)) := by
    rw [← hargs]
    rfl
  refine ⟨survivor.impl, {
    registered := hregistered
    unnamed := hunnamed
    serves := mem_servingInterfaces.mp hserves
    matched := ⟨found, hfound, hscore, ?_⟩
    self := ?_
    generics := ?_
    parameters := ?_
    compatible := hargs ▸ hcompatible
    obligations := hholds
    interface_eq := rfl
    label := hlabel
    isBuiltin := rfl }⟩
  · intro name t hbound hself hunknown hparam
    show survivor.substitution.get? name = some t
    rw [hs]
    exact Substitution.get?_complete_found _ _ _ _ hbound hself hunknown hparam
  · show survivor.substitution.get? "Self" = some subject
    rw [hs]
    exact Substitution.get?_complete_self _ _ _ _
  · intro generic hgeneric
    show (survivor.substitution.get? generic.name).isSome
    rw [hs]
    exact Substitution.isSome_complete_generic _ _ _ _ hgeneric
  · intro generic hgeneric
    show (survivor.substitution.get? generic.name).isSome
    rw [hs]
    exact Substitution.isSome_complete_parameter _ _ _ _ hgeneric

namespace Conversion

-- Arrays of what can be displayed convert to the type of their members.

def display : InterfaceDecl := { name := "Display" }

def convert : InterfaceDecl := { name := "Convert", generics := [⟨"C", []⟩] }

def arrayImpl : Implementation :=
  Implementation.deriveObligations {
    interface := convert
    generics := [⟨"T", [display.toTy]⟩]
    target := .unary .array (.param "T")
    args := [.param "T"] }

def resolver : Resolver where
  env := (Environment.define ∅ "Display" (.interface display)).define "Convert" (.interface convert)
  registry := ⟨[{ interface := display, target := .bool }, arrayImpl]⟩

def resolution : Resolution where
  interface := "Convert"
  label := "impl Convert bool for Array bool"
  substitution := ⟨[("T", .bool), ("Self", .unary .array .bool), ("C", .bool)]⟩
  score := 1
  isBuiltin := false

end Conversion

theorem array_conversion_grounded :
    Conversion.resolver.resolve (.unary .array .bool) "Convert" [.bool] =
        .resolved Conversion.resolution ∧
      ∃ impl, Grounds Conversion.resolver (.unary .array .bool) "Convert" [.bool] impl
        Conversion.resolution := by
  have h : Conversion.resolver.resolve (.unary .array .bool) "Convert" [.bool] =
      .resolved Conversion.resolution := by decide +kernel
  exact ⟨h, resolve_grounded _ _ _ _ _ h⟩

end Conformance
