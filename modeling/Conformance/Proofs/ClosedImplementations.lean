import Conformance.Proofs.BareTargets

namespace Conformance

-- The type that a result may hold in place of its value.
def Environment.errorType (env : Environment) : Ty :=
  ((env.lookup? "Error").map Declaration.toTy).getD .unknown

-- Whoever reads type expressions meets no parameters but their own and those that are left
-- open: aliases mention their own parameters, and the type of errors is used as it stands.
structure Environment.LeavesOpen (env : Environment) (Open : String → Prop) : Prop where
  self : Open "Self"
  aliases : ∀ name decl, env.lookup? name = some (.alias decl) → ∀ p ∈ decl.target.paramNames,
    p ∈ TypeParam.names decl.generics ∨ Open p
  errors : ∀ p ∈ env.errorType.paramNames, Open p

namespace Scope

variable {env : Environment} {generics : List String} {selfType : Ty} {Open : String → Prop}

theorem mem_paramNames_appliedOrBare {base : Ty} {args : List Ty} {p : String}
    (h : p ∈ (appliedOrBare base args).paramNames) :
    p ∈ base.paramNames ∨ ∃ t ∈ args, p ∈ t.paramNames := by
  rw [appliedOrBare] at h
  split at h
  · exact .inl h
  · exact (List.mem_append.mp h).imp_right Ty.mem_paramNamesOfAll.mp

theorem mem_paramNames_argAt {args : List Ty} {index : Nat} {p : String}
    (h : p ∈ (argAt args index).paramNames) : ∃ t ∈ args, p ∈ t.paramNames := by
  rw [argAt, List.getD_eq_getElem?_getD] at h
  cases hget : args[index]? with
  | none =>
      rw [hget] at h
      cases h
  | some t =>
      rw [hget] at h
      exact ⟨t, List.mem_of_getElem? hget, h⟩

section Closed

variable (henv : env.LeavesOpen Open)
  (hself : ∀ p ∈ selfType.paramNames, p ∈ generics ∨ Open p)

include henv

-- All parameters of an alias are given a meaning, if only an unknown one.
theorem paramNames_meaning {name : String} {decl : Declaration} {args : List Ty}
    (hdecl : env.lookup? name = some decl)
    (hargs : ∀ t ∈ args, ∀ p ∈ t.paramNames, p ∈ generics ∨ Open p) :
    ∀ p ∈ (meaning args decl).paramNames, p ∈ generics ∨ Open p := by
  intro p hp
  have hdeclared (family : Family) (name : String) (params : List String)
      (hp : p ∈ (appliedOrBare (.declared family name params) args).paramNames) :
      p ∈ generics ∨ Open p := by
    rcases mem_paramNames_appliedOrBare hp with hbase | ⟨t, ht, hp⟩
    · cases hbase
    · exact hargs t ht p hp
  cases decl with
  | function type => cases hp
  | struct decl => exact hdeclared _ _ _ hp
  | union decl => exact hdeclared _ _ _ hp
  | interface decl => exact hdeclared _ _ _ hp
  | «alias» decl =>
      have hown := henv.aliases name decl hdecl
      cases hplain : decl.generics.isEmpty with
      | true =>
          rw [meaning, if_pos hplain] at hp
          rcases mem_paramNames_appliedOrBare hp with htarget | ⟨t, ht, hp⟩
          · refine .inr ((hown p htarget).resolve_left ?_)
            simp [TypeParam.names, List.isEmpty_iff.mp hplain]
          · exact hargs t ht p hp
      | false =>
          rw [AliasDecl.meaning_generic (by simp [hplain])] at hp
          refine Ty.paramNames_instantiate (P := fun p => p ∈ generics ∨ Open p) decl.target
            (fun q hq p hp => ?_) p hp
          rw [Ty.standIn] at hp
          cases hvalue : (decl.bindings args).get? q with
          | none =>
              rw [hvalue] at hp
              obtain rfl : p = q := by simpa [Ty.paramNames] using hp
              refine .inr ((hown p hq).resolve_left fun hmem => ?_)
              have hsome := @AliasDecl.isSome_get?_bindings decl args p hmem
              rw [hvalue] at hsome
              cases hsome
          | some value =>
              rw [hvalue] at hp
              obtain ⟨-, index, rfl⟩ := AliasDecl.mem_of_get?_bindings hvalue
              obtain ⟨t, ht, hp⟩ := mem_paramNames_argAt hp
              exact hargs t ht p hp

include hself

theorem paramNames_resolveName {name : String} {args : List Ty}
    (hargs : ∀ t ∈ args, ∀ p ∈ t.paramNames, p ∈ generics ∨ Open p) :
    ∀ p ∈ (resolveName ⟨env, generics, selfType⟩ name args).paramNames, p ∈ generics ∨ Open p := by
  intro p hp
  have harg (index : Nat) (hp : p ∈ (argAt args index).paramNames) : p ∈ generics ∨ Open p := by
    obtain ⟨t, ht, hp⟩ := mem_paramNames_argAt hp
    exact hargs t ht p hp
  cases hlooked : isLookedUp generics name with
  | true =>
      rw [resolveName_lookedUp args hlooked] at hp
      cases hfound : env.lookup? name with
      | none =>
          rw [hfound] at hp
          cases hp
      | some decl =>
          rw [hfound] at hp
          exact paramNames_meaning henv hfound hargs p hp
  | false =>
      simp only [resolveName] at hp
      split_ifs at hp with hopen hisSelf hgeneric
      · cases hp
      · rcases mem_paramNames_appliedOrBare hp with hbase | ⟨t, ht, hp⟩
        · exact hself p hbase
        · exact hargs t ht p hp
      · rcases mem_paramNames_appliedOrBare hp with hbase | ⟨t, ht, hp⟩
        · obtain rfl : p = name := by simpa [Ty.paramNames] using hbase
          exact .inl hgeneric
        · exact hargs t ht p hp
      · cases hscalar : Scalar.ofName? name with
        | some kind =>
            rw [hscalar] at hp
            cases hp
        | none =>
            cases hbuiltin : Builtin.ofName? name with
            | none => simp_all [isLookedUp]
            | some builtin =>
                rw [hscalar, hbuiltin] at hp
                cases builtin with
                | unary constructor => exact harg 0 hp
                | map => exact (List.mem_append.mp hp).elim (harg 0) (harg 1)

end Closed

mutual
theorem paramNames_resolve (henv : env.LeavesOpen Open)
    (hself : ∀ p ∈ selfType.paramNames, p ∈ generics ∨ Open p) : (e : TypeExpr) →
    ∀ p ∈ (resolve ⟨env, generics, selfType⟩ e).paramNames, p ∈ generics ∨ Open p
  | .wildcard _, p, hp => by cases hp
  | .simple name _, p, hp => paramNames_resolveName henv hself (by simp) p hp
  | .generic base args _, p, hp => by
      have hargs := paramNames_resolveAll henv hself args
      cases hsimple : base.simpleName? with
      | none =>
          have hbase := paramNames_resolve henv hself base
          rw [resolve_generic hsimple] at hp
          rcases List.mem_append.mp hp with hp | hp
          · exact hbase p hp
          · obtain ⟨t, ht, hp⟩ := Ty.mem_paramNamesOfAll.mp hp
            exact hargs t ht p hp
      | some name =>
          cases base with
          | simple name _ => exact paramNames_resolveName henv hself hargs p hp
          | _ => cases hsimple
  | .nullable inner _, p, hp => paramNames_resolve henv hself inner p hp
  | .result inner _, p, hp => by
      simp only [resolve, Ty.paramNames, Ty.paramNamesOfAll, List.append_nil, List.mem_append] at hp
      rcases hp with hp | hp
      · exact paramNames_resolve henv hself inner p hp
      · exact .inr (henv.errors p hp)
  | .function params returns _, p, hp => by
      simp only [resolve, Ty.paramNames, Signature.plain, Ty.paramNamesOfSignature,
        Ty.paramNamesOfParams, Ty.paramNamesOfWheres, List.nil_append, List.append_nil,
        List.mem_append] at hp
      rcases hp with hp | hp
      · obtain ⟨t, ht, hp⟩ := Ty.mem_paramNamesOfAll.mp hp
        exact paramNames_resolveAll henv hself params t ht p hp
      · exact paramNames_resolve henv hself returns p hp
  | .union members _, p, hp => by
      obtain ⟨t, ht, hp⟩ := Ty.mem_paramNamesOfAll.mp hp
      exact paramNames_resolveAll henv hself members t ht p hp
theorem paramNames_resolveAll (henv : env.LeavesOpen Open)
    (hself : ∀ p ∈ selfType.paramNames, p ∈ generics ∨ Open p) : (es : List TypeExpr) →
    ∀ t ∈ resolveAll ⟨env, generics, selfType⟩ es, ∀ p ∈ t.paramNames, p ∈ generics ∨ Open p
  | [], t, ht, _, _ => by cases ht
  | e :: es, t, ht, p, hp => by
      rcases List.mem_cons.mp ht with rfl | ht
      · exact paramNames_resolve henv hself e p hp
      · exact paramNames_resolveAll henv hself es t ht p hp
end

end Scope

-- What the aliases of a program leave open is what the type of errors leaves open. That type
-- may be an alias itself, so both are carried along while the aliases are read.
theorem Collection.leavesOpen_ofProgram (finder : ComponentFinder) (program : Program)
    (builtins : Bool) :
    (ofProgram finder program builtins).env.LeavesOpen fun p =>
      p = "Self" ∨ p ∈ (ofProgram finder program builtins).env.errorType.paramNames := by
  have hdistinct := distinct_accepted program
  rw [env_ofProgram]
  generalize hOpen : (fun p => p = "Self" ∨
    p ∈ (called finder (accepted program)).env.errorType.paramNames) = Open
  have hself : Open "Self" := by
    rw [← hOpen]
    exact .inl rfl
  have herrors (p : String) (hp : p ∈ (called finder (accepted program)).env.errorType.paramNames) :
      Open p := by
    rw [← hOpen]
    exact .inr hp
  refine ⟨hself, fun name decl hdecl => ?_, herrors⟩
  suffices h : (∀ p ∈ decl.target.paramNames, p ∈ TypeParam.names decl.generics ∨ Open p) ∧
      (name = "Error" → ∀ p ∈ decl.target.paramNames, Open p) from h.1
  refine alias_invariant (P := fun name decl =>
    (∀ p ∈ decl.target.paramNames, p ∈ TypeParam.names decl.generics ∨ Open p) ∧
      (name = "Error" → ∀ p ∈ decl.target.paramNames, Open p)) hdistinct ?_ ?_
    (lookup?_aliased_of_called hdistinct hdecl)
  · refine fun item _ => ⟨fun p hp => ?_, fun _ p hp => ?_⟩ <;> cases hp
  · intro item _ env htypes hbefore hfinal
    have henv : env.LeavesOpen Open := by
      refine ⟨hself, fun name decl h => (hbefore name decl h).1, fun p hp => ?_⟩
      rw [Environment.errorType] at hp
      cases hlookup : env.lookup? "Error" with
      | none =>
          rw [hlookup] at hp
          cases hp
      | some decl =>
          rw [hlookup] at hp
          cases decl with
          | function type => cases htypes.kind _ _ hlookup
          | «alias» decl => exact (hbefore _ decl hlookup).2 rfl p hp
          | _ => cases hp
    refine ⟨fun p hp => ?_, fun hname p hp => herrors p ?_⟩
    · rw [AliasDef.elaborate, Item.names_resolveParams]
      exact Scope.paramNames_resolve henv (by simp [Ty.paramNames, hself]) item.target p hp
    · rw [hname] at hfinal
      rw [Environment.errorType, lookup?_called_of_aliased hdistinct hfinal]
      exact hp

theorem Obligation.mem_ofClauses {owner : String} {generics : List (TypeParam Ty)}
    {wheres : List (WhereClause Ty)} {node : Option Span} {obligation : Obligation}
    (h : obligation ∈ ofClauses owner generics wheres node) :
    (∃ generic ∈ generics, obligation.subject = .param generic.name ∧
        obligation.constraint ∈ generic.bounds) ∨
      ∃ clause ∈ wheres, obligation.subject = clause.subject ∧
        obligation.constraint ∈ clause.bounds := by
  simp only [ofClauses, List.mem_append, List.mem_flatMap, List.mem_map] at h
  rcases h with ⟨generic, hmem, bound, hbound, rfl⟩ | ⟨clause, hmem, bound, hbound, rfl⟩
  · exact .inl ⟨generic, hmem, rfl, hbound⟩
  · exact .inr ⟨clause, hmem, rfl, hbound⟩

-- The parameters that an implementation mentions outside of its methods.
def Implementation.paramNames (impl : Implementation) : List String :=
  impl.target.paramNames ++ Ty.paramNamesOfAll impl.args ++ Ty.paramNamesOfWheres impl.wheres ++
    impl.obligations.flatMap fun obligation =>
      obligation.subject.paramNames ++ obligation.constraint.paramNames

theorem ImplDef.paramNames_build {item : ImplDef} {env : Environment} {interface : InterfaceDecl}
    {inferred : InferredGenerics} {Open : String → Prop} (henv : env.LeavesOpen Open) :
    ∀ p ∈ (item.build env interface inferred).paramNames,
      p ∈ TypeParam.names (item.build env interface inferred).generics ∨ Open p := by
  have hnames : TypeParam.names (item.build env interface inferred).generics =
      TypeParam.names inferred.generics := Item.names_resolveParams _ _
  rw [hnames]
  have htarget : ∀ p ∈ (item.build env interface inferred).target.paramNames,
      p ∈ TypeParam.names inferred.generics ∨ Open p :=
    Scope.paramNames_resolve henv (by simp [Ty.paramNames, henv.self]) item.target
  have hresolve := Scope.paramNames_resolve henv htarget
  have hbounds (bounds : List TypeExpr) := Scope.paramNames_resolveAll henv htarget bounds
  simp only [Scope.resolveAll_eq] at hbounds
  intro p hp
  simp only [Implementation.paramNames, List.mem_append, List.mem_flatMap] at hp
  rcases hp with ((hp | hp) | hp) | ⟨obligation, hmem, hp⟩
  · exact htarget p hp
  · obtain ⟨t, ht, hp⟩ := Ty.mem_paramNamesOfAll.mp hp
    exact hbounds item.args t ht p hp
  · obtain ⟨clause, hclause, hp⟩ := Ty.mem_paramNamesOfWheres.mp hp
    obtain ⟨written, -, rfl⟩ := List.mem_map.mp hclause
    rcases hp with hp | ⟨bound, hbound, hp⟩
    · exact hresolve _ p hp
    · exact hbounds _ bound hbound p hp
  · rcases Obligation.mem_ofClauses hmem with
      ⟨generic, hgeneric, hsubject, hbound⟩ | ⟨clause, hclause, hsubject, hbound⟩
    · obtain ⟨written, hwritten, rfl⟩ := List.mem_map.mp hgeneric
      rcases hp with hp | hp
      · rw [hsubject] at hp
        obtain rfl : p = written.name := by simpa [Ty.paramNames] using hp
        exact .inl (List.mem_map_of_mem hwritten)
      · exact hbounds _ _ hbound p hp
    · obtain ⟨written, -, rfl⟩ := List.mem_map.mp hclause
      rcases hp with hp | hp
      · rw [hsubject] at hp
        exact hresolve _ p hp
      · exact hbounds _ _ hbound p hp

namespace Fallible

open Catalogue Wrapped

def genericErrors : Item := .alias ⟨"Error", [⟨"T", []⟩], arrayOf "T", [], default⟩

def errorFunction : Item :=
  .function ⟨"Error", [], [⟨"x", some (named "T")⟩], none, [], false, default⟩

-- An implementation for the results of `i32`.
def resultBlock : Item := blockFor (.result (named "i32") default)

def indexed : Item :=
  .alias ⟨"Indexed", [⟨"K", []⟩, ⟨"V", []⟩],
    .generic (named "Map") [named "K", arrayOf "V"] default, [], default⟩

def indexedBlock : Item :=
  .impl ⟨none, "Show", [], [],
    .result (.generic (named "Indexed") [named "A", named "B"] default) default,
    [⟨named "A", [named "Show"]⟩, ⟨arrayOf "B", [named "Show"]⟩], [], default⟩

def program : Program :=
  [showable, .struct ⟨"Error", [], [], [], default⟩, indexed, indexedBlock]

end Fallible

open Wrapped Fallible in
-- A result is read with the type of errors as it is declared, parameters included.
theorem error_parameter_leaks :
    ((Collection.ofProgram depthFirst [showable, genericErrors, resultBlock]
        false).registry.entries.map fun impl =>
        (impl.isBuiltin, impl.generics, impl.target.paramNames)) = [(false, [], ["T"])] ∧
      ((Collection.ofProgram depthFirst [showable, errorFunction, resultBlock]
        false).registry.entries.map fun impl =>
        (impl.isBuiltin, impl.generics, impl.target.paramNames)) = [(false, [], ["T"])] := by
  refine ⟨?_, ?_⟩ <;> decide +kernel

-- All parameters that an implementation mentions are its own, provided that the type of
-- errors has no others.
theorem registered_impl_closed {finder : ComponentFinder} {program : Program} {builtins : Bool}
    {impl : Implementation}
    (himpl : impl ∈ (Collection.ofProgram finder program builtins).registry.entries)
    (huser : impl.isBuiltin = false)
    (herror : ∀ p ∈ (Collection.ofProgram finder program builtins).env.errorType.paramNames,
      p ∈ TypeParam.names impl.generics ∨ p = "Self") :
    ∀ p ∈ impl.paramNames, p ∈ TypeParam.names impl.generics ∨ p = "Self" := by
  obtain ⟨item, -, hitem⟩ := Collection.exists_block himpl huser
  obtain ⟨interface, -, rfl, -⟩ := ImplDef.elaborate_impl hitem
  intro p hp
  have hleaves := Collection.leavesOpen_ofProgram finder program builtins
  rcases ImplDef.paramNames_build hleaves p hp with hown | hself | hopen
  · exact .inl hown
  · exact .inr hself
  · exact herror p hopen

theorem indexed_results_closed :
    ((Collection.ofProgram depthFirst Fallible.program true).registry.entries.map fun impl =>
        (TypeParam.names impl.generics, impl.paramNames)) =
        [(["A", "B"], ["A", "B", "B", "A", "B"])] ∧
      ∀ impl ∈ (Collection.ofProgram depthFirst Fallible.program true).registry.entries,
        ∀ p ∈ impl.paramNames, p ∈ TypeParam.names impl.generics ∨ p = "Self" := by
  refine ⟨by decide +kernel, fun impl himpl => registered_impl_closed himpl ?_ ?_⟩
  · have huser : ∀ impl ∈ (Collection.ofProgram depthFirst Fallible.program true).registry.entries,
        impl.isBuiltin = false := by
      decide +kernel
    exact huser impl himpl
  · have hclosed :
        (Collection.ofProgram depthFirst Fallible.program true).env.errorType.paramNames = [] := by
      decide +kernel
    simp [hclosed]

end Conformance
