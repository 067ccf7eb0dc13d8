import Conformance.Proofs.Instantiation
import Conformance.Proofs.ReadingPhases

namespace Conformance

namespace Ty

-- A declared constructor that takes parameters and has no arguments, also behind aliases.
def isBare (t : Ty) : Bool := t.nominal?.any Nominal.bare

theorem isBare_applied (base : Ty) (args : List Ty) : (Ty.applied base args).isBare = false := by
  rw [isBare, nominal?]
  cases base.nominal? <;> rfl

theorem isBare_applyTo (base : Ty) (args : List Ty) : (applyTo base args).isBare = false := by
  rw [applyTo.eq_def]
  split
  · rfl
  · rfl
  · exact isBare_applied _ _

-- Parameters that are given a meaning make a constructor of a type only if it is a parameter.
theorem isBare_instantiate (s : Substitution) : (t : Ty) → (t.instantiate s).isBare = true →
    t.isBare = true ∨ ∃ name, t.resolveAlias = .param name ∧ (s.get? name).isSome
  | .param name, h => by
      refine .inr ⟨name, rfl, ?_⟩
      rw [instantiate] at h
      cases hbound : s.get? name with
      | some value => rfl
      | none =>
          rw [hbound] at h
          cases h
  | .alias _ target, h => isBare_instantiate s target h
  | .applied base args, h => by
      rw [instantiate, isBare_applyTo] at h
      cases h
  | .declared _ _ _, h => .inl h
  | .inst _ _, h | .nullable _, h | .unary _ _, h | .map _ _, h => by cases h
  | .unknown, h | .scalar _, h | .anyOf _, h | .function _, h | .overload _, h => by cases h

end Ty

-- Whether an alias can stand for a constructor: it is one itself, or a parameter of its own,
-- in whose place a constructor may be given.
def AliasDecl.standsForConstructor (decl : AliasDecl) : Bool :=
  decl.target.isBare ||
    (TypeParam.names decl.generics).any fun name => decl.target.resolveAlias = .param name

-- What the parameters of an alias stand for where it is given arguments.
def AliasDecl.bindings (decl : AliasDecl) (args : List Ty) : Substitution :=
  Bindings.ofList (decl.generics.zipIdx.map fun entry => (entry.1.name, Scope.argAt args entry.2))

namespace AliasDecl

variable {decl : AliasDecl} {args : List Ty} {name : String}

theorem isSome_get?_bindings (h : name ∈ TypeParam.names decl.generics) :
    ((decl.bindings args).get? name).isSome := by
  refine Bindings.isSome_get?_ofList ?_
  obtain ⟨generic, hgeneric, rfl⟩ := List.mem_map.mp h
  obtain ⟨index, hindex⟩ := List.mem_iff_getElem?.mp hgeneric
  refine List.mem_map.mpr ⟨(generic.name, Scope.argAt args index), ?_, rfl⟩
  exact List.mem_map.mpr ⟨(generic, index), List.mem_zipIdx_iff_getElem?.mpr hindex, rfl⟩

theorem mem_of_get?_bindings {value : Ty} (h : (decl.bindings args).get? name = some value) :
    name ∈ TypeParam.names decl.generics ∧ ∃ index, value = Scope.argAt args index := by
  obtain ⟨⟨generic, index⟩, hmem, heq⟩ := List.mem_map.mp (Bindings.mem_of_get?_ofList h)
  obtain ⟨rfl, rfl⟩ := Prod.mk.inj heq
  have hgeneric := List.mem_of_getElem? (List.mem_zipIdx_iff_getElem?.mp hmem)
  exact ⟨List.mem_map_of_mem hgeneric, index, rfl⟩

-- A generic alias binds at least one parameter, so its target is instantiated.
theorem meaning_generic (h : ¬ decl.generics.isEmpty = true) :
    Scope.meaning args (.alias decl) =
      .alias decl.name (decl.target.instantiate (decl.bindings args)) := by
  obtain ⟨generic, rest, hcons⟩ := List.exists_cons_of_ne_nil
    (fun hnil => h (by simp [hnil]) : decl.generics ≠ [])
  have hfirst : ((decl.bindings args).get? generic.name).isSome :=
    isSome_get?_bindings (by simp [TypeParam.names, hcons])
  have hmeaning : Scope.meaning args (.alias decl) =
      .alias decl.name (decl.target.substitute (decl.bindings args)) := by
    rw [Scope.meaning, if_neg h]
    rfl
  rw [hmeaning, Ty.substitute_eq_instantiate hfirst]

end AliasDecl

namespace Scope

variable {env : Environment} {generics : List String} {name : String} {args : List Ty}

theorem isBare_appliedOrBare (base : Ty) (args : List Ty)
    (h : (appliedOrBare base args).isBare = true) : args = [] ∧ base.isBare = true := by
  rw [appliedOrBare] at h
  cases args with
  | nil => exact ⟨rfl, h⟩
  | cons arg args =>
      have hnot := Ty.isBare_applied base (arg :: args)
      exact absurd h (by simp [hnot])

-- Names whose meaning is not declared stand for no declared constructor.
theorem isBare_resolveName_fixed (h : isLookedUp generics name = false) :
    (resolveName ⟨env, generics, .param "Self"⟩ name args).isBare = false := by
  have hparam (p : String) : (appliedOrBare (.param p) args).isBare = false := by
    rw [← Bool.not_eq_true]
    intro hbare
    cases (isBare_appliedOrBare _ _ hbare).2
  simp only [isLookedUp, Bool.not_eq_false', Bool.or_eq_true, decide_eq_true_eq,
    List.contains_iff_mem] at h
  simp only [resolveName]
  split_ifs with hopen hself hgeneric
  · rfl
  · exact hparam "Self"
  · exact hparam name
  · cases hscalar : Scalar.ofName? name with
    | some kind => rfl
    | none =>
        cases hbuiltin : Builtin.ofName? name with
        | some builtin => cases builtin <;> rfl
        | none => simp_all

-- A name with all of its arguments means a bare constructor only as an alias of one.
theorem resolveName_isBare
    (hfine : name ∈ generics ∨ (env.constructorArity? name).any (args.length < ·) = false)
    (h : (resolveName ⟨env, generics, .param "Self"⟩ name args).isBare = true) :
    ∃ decl, env.lookup? name = some (.alias decl) ∧
      resolveName ⟨env, generics, .param "Self"⟩ name args = meaning args (.alias decl) := by
  cases hlooked : isLookedUp generics name with
  | false => simp [isBare_resolveName_fixed hlooked] at h
  | true =>
      rw [resolveName_lookedUp args hlooked] at h ⊢
      simp only [isLookedUp, Bool.not_eq_true', Bool.or_eq_false_iff, decide_eq_false_iff_not,
        Option.isSome_eq_false_iff, Option.isNone_iff_eq_none] at hlooked
      obtain ⟨⟨⟨-, hgeneric⟩, hscalar⟩, hbuiltin⟩ := hlooked
      have harity := hfine.resolve_left (by simpa using hgeneric)
      rw [Environment.constructorArity?, hbuiltin, hscalar] at harity
      -- The number of parameters of a declared constructor is the arity that was checked.
      have hdeclared (family : Family) (name : String) (params : List (TypeParam Ty))
          (hbare :
            (appliedOrBare (.declared family name (TypeParam.names params)) args).isBare = true) :
          args.length < params.length := by
        obtain ⟨rfl, hparams⟩ := isBare_appliedOrBare _ _ hbare
        have hne : params ≠ [] := by
          rintro rfl
          cases hparams
        exact List.length_pos_of_ne_nil hne
      cases hfound : env.lookup? name with
      | none =>
          rw [hfound] at h
          cases h
      | some decl =>
          rw [hfound] at h harity
          cases decl with
          | «alias» decl => exact ⟨decl, rfl, rfl⟩
          | function type => cases h
          | struct decl => simp [Declaration.arity, hdeclared _ _ _ h] at harity
          | union decl => simp [Declaration.arity, hdeclared _ _ _ h] at harity
          | interface decl => simp [Declaration.arity, hdeclared _ _ _ h] at harity

-- The check on expressions finds every bare constructor that is not reached through an alias.
theorem resolve_isBare {e : TypeExpr} (hfine : e.targetsBareConstructor env generics = false)
    (h : (resolve ⟨env, generics, .param "Self"⟩ e).isBare = true) :
    ∃ name args decl, env.lookup? name = some (.alias decl) ∧
      resolve ⟨env, generics, .param "Self"⟩ e = meaning args (.alias decl) := by
  cases e with
  | simple name span =>
      rw [resolve] at h ⊢
      refine ⟨name, [], resolveName_isBare ?_ h⟩
      rw [TypeExpr.targetsBareConstructor] at hfine
      split at hfine
      · rename_i hgeneric
        exact .inl hgeneric
      · exact .inr hfine
  | generic base args span =>
      cases base with
      | simple name span' =>
          rw [resolve] at h ⊢
          refine ⟨name, _, resolveName_isBare ?_ h⟩
          rw [TypeExpr.targetsBareConstructor] at hfine
          split at hfine
          · cases hfine
          · simp only [TypeExpr.baseName?] at hfine
            split at hfine
            · rename_i hgeneric
              exact .inl hgeneric
            · refine .inr ?_
              rw [resolveAll_eq, List.length_map]
              exact hfine
      | _ =>
          rw [resolve_generic rfl, Ty.isBare_applied] at h
          cases h
  | _ => cases h

-- What an alias means with arguments is a bare constructor only if the alias can stand for one.
theorem isBare_meaning_alias {decl : AliasDecl}
    (h : (meaning args (.alias decl)).isBare = true) :
    decl.standsForConstructor = true ∧
      ∃ target, meaning args (.alias decl) = .alias decl.name target := by
  cases hplain : decl.generics.isEmpty with
  | true =>
      rw [meaning, if_pos hplain] at h ⊢
      obtain ⟨rfl, hbare⟩ := isBare_appliedOrBare _ _ h
      have htarget : decl.target.isBare = true := hbare
      exact ⟨by simp [AliasDecl.standsForConstructor, htarget], decl.target, rfl⟩
  | false =>
      rw [AliasDecl.meaning_generic (by simp [hplain])] at h ⊢
      refine ⟨?_, _, rfl⟩
      rw [AliasDecl.standsForConstructor, Bool.or_eq_true, List.any_eq_true]
      refine (Ty.isBare_instantiate _ _ h).imp_right ?_
      rintro ⟨name, hparam, hbound⟩
      obtain ⟨value, hvalue⟩ := Option.isSome_iff_exists.mp hbound
      exact ⟨name, (AliasDecl.mem_of_get?_bindings hvalue).1, by simpa using hparam⟩

end Scope

-- Aliases are bound under their names.
theorem Collection.name_of_lookup?_alias {finder : ComponentFinder} {program : Program}
    {builtins : Bool} {name : String} {decl : AliasDecl}
    (h : (ofProgram finder program builtins).env.lookup? name = some (.alias decl)) :
    decl.name = name := by
  have hdistinct := distinct_accepted program
  rw [env_ofProgram] at h
  refine alias_invariant (P := fun name decl => decl.name = name) hdistinct ?_ ?_
    (lookup?_aliased_of_called hdistinct h)
  · exact fun _ _ => rfl
  · exact fun _ _ _ _ _ _ => rfl

namespace Wrapped

open Catalogue

def showable : Item := .interface ⟨"Show", [], none, [], [], default⟩

def wrapper : Item := .struct ⟨"Wrapper", [⟨"T", []⟩], [], [], default⟩

def blockFor (target : TypeExpr) : Item :=
  .impl ⟨none, "Show", [], [], target, [], [], default⟩

-- An alias of a constructor without arguments.
def wrapping : Item := aliasOf "Wrapping" (named "Wrapper")

def boxed : Item :=
  .alias ⟨"Boxed", [⟨"X", []⟩], .generic (named "Wrapper") [named "X"] default, [], default⟩

def program : Program :=
  [showable, wrapper, boxed, blockFor (.generic (named "Boxed") [named "i32"] default)]

end Wrapped

-- A constructor behind an alias passes as a target; by its own name it is refused.
theorem bare_target_behind_alias :
    ((Collection.ofProgram depthFirst [Wrapped.showable, Wrapped.wrapper, Wrapped.wrapping,
          Wrapped.blockFor (Catalogue.named "Wrapping")] false).registry.entries.map fun impl =>
        (impl.isBuiltin, impl.interface.selfPattern, impl.target)) =
        [(false, none, .alias "Wrapping" (.declared .struct "Wrapper" ["T"]))] ∧
      (Ty.alias "Wrapping" (.declared .struct "Wrapper" ["T"])).isBare = true ∧
      (Collection.ofProgram depthFirst [Wrapped.showable, Wrapped.wrapper, Wrapped.wrapping,
          Wrapped.blockFor (Catalogue.named "Wrapping")] false).diagnostics = [] ∧
      (Collection.ofProgram depthFirst [Wrapped.showable, Wrapped.wrapper, Wrapped.wrapping,
          Wrapped.blockFor (Catalogue.named "Wrapper")] false).registry.entries = [] := by
  refine ⟨?_, ?_, ?_, ?_⟩ <;> decide +kernel

-- The target of an implementation for an interface that asks for no shape has all of its
-- arguments, unless it is an alias that can stand for a constructor.
theorem registered_target_not_bare {finder : ComponentFinder} {program : Program}
    {builtins : Bool} {impl : Implementation}
    (himpl : impl ∈ (Collection.ofProgram finder program builtins).registry.entries)
    (huser : impl.isBuiltin = false)
    (hpattern : ∀ pattern ∈ impl.interface.selfPattern, pattern.isTrivialPattern = true)
    (halias : ∀ name target decl, impl.target = .alias name target →
      (Collection.ofProgram finder program builtins).env.lookup? name = some (.alias decl) →
      decl.standsForConstructor = false) :
    impl.target.isBare = false := by
  obtain ⟨item, -, hitem⟩ := Collection.exists_block himpl huser
  obtain ⟨interface, -, rfl, hfault⟩ := ImplDef.elaborate_impl hitem
  have hopen : interface.selfPattern.filter (fun pattern => !pattern.isTrivialPattern) = none := by
    refine Option.filter_eq_none_iff.mpr fun pattern hmem => ?_
    simp [hpattern pattern hmem]
  rw [InterfaceDecl.targetFault?, hopen] at hfault
  have hchecked : item.target.targetsBareConstructor
      (Collection.ofProgram finder program builtins).env
      (item.genericNames (Collection.ofProgram finder program builtins).env) = false := by
    simpa using hfault
  rw [← Bool.not_eq_true]
  intro hbare
  obtain ⟨name, args, decl, hlookup, hmeaning⟩ := Scope.resolve_isBare hchecked hbare
  have htarget : (item.build (Collection.ofProgram finder program builtins).env interface
      (item.inferred (Collection.ofProgram finder program builtins).env)).target =
        Scope.meaning args (.alias decl) := hmeaning
  rw [htarget] at hbare
  obtain ⟨hstands, target, heq⟩ := Scope.isBare_meaning_alias hbare
  obtain rfl := Collection.name_of_lookup?_alias hlookup
  rw [halias decl.name target decl (htarget.trans heq) hlookup] at hstands
  cases hstands

theorem boxed_target_not_bare :
    (Collection.ofProgram depthFirst Wrapped.program true).registry.entries.map
        Implementation.target =
        [.alias "Boxed" (.applied (.declared .struct "Wrapper" ["T"]) [.i32])] ∧
      ∀ impl ∈ (Collection.ofProgram depthFirst Wrapped.program true).registry.entries,
        impl.target.isBare = false := by
  refine ⟨by decide +kernel, fun impl himpl => ?_⟩
  have hblock : ∀ impl ∈ (Collection.ofProgram depthFirst Wrapped.program true).registry.entries,
      impl.isBuiltin = false ∧ impl.interface.selfPattern = none ∧
        impl.target = .alias "Boxed" (.applied (.declared .struct "Wrapper" ["T"]) [.i32]) := by
    decide +kernel
  obtain ⟨huser, hpattern, htarget⟩ := hblock impl himpl
  refine registered_target_not_bare himpl huser (by simp [hpattern]) ?_
  rintro name target decl heq hlookup
  obtain ⟨rfl, -⟩ := Ty.alias.inj (htarget.symm.trans heq)
  have hboxed : (Collection.ofProgram depthFirst Wrapped.program true).env.lookup? "Boxed" =
      some (.alias ⟨"Boxed", [⟨"X", []⟩],
        .applied (.declared .struct "Wrapper" ["T"]) [.param "X"], some default⟩) := by
    decide +kernel
  obtain rfl := Declaration.alias.inj (Option.some.inj (hlookup.symm.trans hboxed))
  decide +kernel

end Conformance
