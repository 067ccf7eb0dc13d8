import Conformance.Elaboration
import Mathlib.Tactic.SplitIfs

namespace Conformance

-- What type expressions see of a declaration: its kind, the type that its name means and the
-- names of its parameters. A shell shows as much of a struct, a union or an interface as the
-- declaration that takes its place.
structure Face where
  kind : String
  type : Ty
  params : List String
deriving DecidableEq

namespace Declaration

def params : Declaration → List String
  | .struct decl => TypeParam.names decl.generics
  | .union decl => TypeParam.names decl.generics
  | .interface decl => TypeParam.names decl.generics
  | .alias decl => TypeParam.names decl.generics
  | .function _ => []

def face (decl : Declaration) : Face := ⟨decl.kindName, decl.toTy, decl.params⟩

end Declaration

namespace Environment

def face? (env : Environment) (name : String) : Option Face :=
  (env.lookup? name).map Declaration.face

theorem lookup?_define (env : Environment) (name other : String) (decl : Declaration) :
    (env.define name decl).lookup? other = if name = other then some decl else env.lookup? other := by
  by_cases heq : name = other
  · simp [lookup?, define, heq]
  · simp only [lookup?, define, List.findSome?_cons, Bindings.get?_insert, heq, if_false]

end Environment

-- Whether the meaning of a name depends on what is declared.
def isLookedUp (generics : List String) (name : String) : Bool :=
  !(name = "_" || name = "" || name = "Self" || generics.contains name ||
    (Scalar.ofName? name).isSome || (Builtin.ofName? name).isSome)

namespace TypeExpr

mutual
-- The names that are looked up to find the meaning of an expression. A result asks for the
-- type of errors.
def consulted (generics : List String) : TypeExpr → List String
  | .simple name _ => if isLookedUp generics name then [name] else []
  | .generic base args _ => base.consulted generics ++ allConsulted generics args
  | .nullable inner _ => inner.consulted generics
  | .result inner _ => inner.consulted generics ++ ["Error"]
  | .function params returns _ => allConsulted generics params ++ returns.consulted generics
  | .union members _ => allConsulted generics members
  | .wildcard _ => []
def allConsulted (generics : List String) : List TypeExpr → List String
  | [] => []
  | e :: es => e.consulted generics ++ allConsulted generics es
end

end TypeExpr

-- The names that are looked up when an alias is read.
def AliasDef.consulted (item : AliasDef) : List String :=
  let generics := TypeParam.names item.generics
  (item.generics.flatMap fun param => param.bounds.flatMap (TypeExpr.consulted generics)) ++
    item.target.consulted generics

namespace Scope

variable {env env' : Environment} {generics : List String} {selfType : Ty}

-- What the name of a declaration means with arguments.
def meaning (args : List Ty) : Declaration → Ty
  | .function _ => .unknown
  | .alias decl =>
      if decl.generics.isEmpty then appliedOrBare (.alias decl.name decl.target) args
      else
        let bindings := decl.generics.zipIdx.map fun entry => (entry.1.name, argAt args entry.2)
        .alias decl.name (decl.target.substitute (Bindings.ofList bindings))
  | decl => appliedOrBare decl.toTy args

theorem meaning_congr {decl other : Declaration} (args : List Ty) (h : decl.face = other.face) :
    meaning args decl = meaning args other := by
  simp only [Declaration.face, Face.mk.injEq] at h
  obtain ⟨hkind, htype, hparams⟩ := h
  cases decl <;> cases other <;> simp only [Declaration.kindName, String.reduceEq] at hkind
  case «alias» decl other =>
    obtain ⟨hname, htarget⟩ : decl.name = other.name ∧ decl.target = other.target := by
      simpa [Declaration.toTy] using htype
    have hempty : decl.generics.isEmpty = other.generics.isEmpty := by
      have := congrArg List.isEmpty hparams
      simpa [Declaration.params, TypeParam.names] using this
    have hbindings : ∀ params : List (TypeParam Ty),
        (params.zipIdx.map fun entry => (entry.1.name, argAt args entry.2)) =
          (TypeParam.names params).zipIdx.map fun entry => (entry.1, argAt args entry.2) := by
      intro params
      simp [TypeParam.names, List.zipIdx_map, Function.comp_def]
    have hnames : TypeParam.names decl.generics = TypeParam.names other.generics := hparams
    simp only [meaning, hname, htarget, hempty, hbindings, hnames]
  case function => rfl
  all_goals
    simp only [meaning]
    rw [htype]

theorem resolveName_lookedUp {name : String} (args : List Ty)
    (h : isLookedUp generics name = true) :
    resolveName ⟨env, generics, selfType⟩ name args =
      ((env.lookup? name).map (meaning args)).getD .unknown := by
  simp only [isLookedUp, Bool.not_eq_true', Bool.or_eq_false_iff, decide_eq_false_iff_not,
    Option.isSome_eq_false_iff, Option.isNone_iff_eq_none] at h
  obtain ⟨⟨⟨⟨⟨hwildcard, hempty⟩, hself⟩, hgeneric⟩, hscalar⟩, hbuiltin⟩ := h
  have hscope : name ∉ generics := by simpa using hgeneric
  simp only [resolveName, hwildcard, hempty, hself, hscope, hscalar, hbuiltin, or_self, if_false]
  cases env.lookup? name with
  | none => rfl
  | some decl => cases decl <;> rfl

theorem resolveName_fixed {name : String} (args : List Ty)
    (h : isLookedUp generics name = false) :
    resolveName ⟨env, generics, selfType⟩ name args =
      resolveName ⟨env', generics, selfType⟩ name args := by
  simp only [isLookedUp, Bool.not_eq_false', Bool.or_eq_true, decide_eq_true_eq,
    List.contains_iff_mem] at h
  simp only [resolveName]
  split_ifs with hopen hself hgeneric
  · rfl
  · rfl
  · rfl
  · cases hscalar : Scalar.ofName? name with
    | some kind => rfl
    | none =>
        cases hbuiltin : Builtin.ofName? name with
        | some builtin => cases builtin <;> rfl
        | none => simp_all

theorem resolveName_congr {name : String} (args : List Ty)
    (h : isLookedUp generics name = true → env.face? name = env'.face? name) :
    resolveName ⟨env, generics, selfType⟩ name args =
      resolveName ⟨env', generics, selfType⟩ name args := by
  cases hlooked : isLookedUp generics name with
  | false => exact resolveName_fixed args hlooked
  | true =>
      have hface := h hlooked
      rw [resolveName_lookedUp args hlooked, resolveName_lookedUp args hlooked]
      rw [Environment.face?, Environment.face?] at hface
      cases hfirst : env.lookup? name <;> cases hsecond : env'.lookup? name <;>
        simp only [hfirst, hsecond, Option.map_none, Option.map_some, reduceCtorEq,
          Option.some.injEq] at hface
      · rfl
      · exact meaning_congr args hface

theorem resolve_generic {scope : Scope} {base : TypeExpr} (h : base.simpleName? = none)
    {args : List TypeExpr} {span : Span} :
    scope.resolve (.generic base args span) = .applied (scope.resolve base) (scope.resolveAll args) := by
  cases base with
  | simple _ _ => cases h
  | _ => rfl

mutual
-- The meaning of an expression depends on the faces of what it looks up.
theorem resolve_congr : (e : TypeExpr) →
    (∀ name ∈ e.consulted generics, env.face? name = env'.face? name) →
    resolve ⟨env, generics, selfType⟩ e = resolve ⟨env', generics, selfType⟩ e
  | .wildcard _, _ => rfl
  | .simple name _, h => by
      rw [resolve, resolve]
      exact resolveName_congr [] fun hlooked => h name (by simp [TypeExpr.consulted, hlooked])
  | .generic base args _, h => by
      simp only [TypeExpr.consulted, List.mem_append] at h
      have hbase := resolve_congr base fun name hname => h name (.inl hname)
      have hargs := resolveAll_congr args fun name hname => h name (.inr hname)
      cases hsimple : base.simpleName? with
      | none => rw [resolve_generic hsimple, resolve_generic hsimple, hbase, hargs]
      | some name =>
          cases base with
          | simple name _ =>
              rw [resolve, resolve, hargs]
              exact resolveName_congr _ fun hlooked =>
                h name (.inl (by simp [TypeExpr.consulted, hlooked]))
          | _ => cases hsimple
  | .nullable inner _, h => by
      rw [resolve, resolve, resolve_congr inner h]
  | .result inner _, h => by
      simp only [TypeExpr.consulted, List.mem_append, List.mem_singleton] at h
      have hinner := resolve_congr inner fun name hname => h name (.inl hname)
      have herror : ((env.lookup? "Error").map Declaration.toTy) =
          ((env'.lookup? "Error").map Declaration.toTy) := by
        have hface := congrArg (Option.map Face.type) (h "Error" (.inr rfl))
        simpa [Environment.face?, Declaration.face, Function.comp_def] using hface
      rw [resolve, resolve, hinner]
      dsimp only
      rw [herror]
  | .function params returns _, h => by
      simp only [TypeExpr.consulted, List.mem_append] at h
      have hparams := resolveAll_congr params fun name hname => h name (.inl hname)
      have hreturns := resolve_congr returns fun name hname => h name (.inr hname)
      rw [resolve, resolve, hparams, hreturns]
  | .union members _, h => by
      rw [resolve, resolve, resolveAll_congr members h]
theorem resolveAll_congr : (es : List TypeExpr) →
    (∀ name ∈ TypeExpr.allConsulted generics es, env.face? name = env'.face? name) →
    resolveAll ⟨env, generics, selfType⟩ es = resolveAll ⟨env', generics, selfType⟩ es
  | [], _ => rfl
  | e :: es, h => by
      simp only [TypeExpr.allConsulted, List.mem_append] at h
      have hfirst := resolve_congr e fun name hname => h name (.inl hname)
      have hrest := resolveAll_congr es fun name hname => h name (.inr hname)
      rw [resolveAll, resolveAll, hfirst, hrest]
end

section Faces

variable (hfaces : ∀ name, env.face? name = env'.face? name)

include hfaces

theorem resolve_eq (generics : List String) (selfType : Ty) :
    resolve ⟨env, generics, selfType⟩ = resolve ⟨env', generics, selfType⟩ := by
  funext e
  exact resolve_congr e fun name _ => hfaces name

theorem resolveParams_eq (generics : List String) (selfType : Ty) :
    resolveParams ⟨env, generics, selfType⟩ = resolveParams ⟨env', generics, selfType⟩ := by
  funext params
  simp only [resolveParams, resolve_eq hfaces]

theorem resolveWheres_eq (generics : List String) (selfType : Ty) :
    resolveWheres ⟨env, generics, selfType⟩ = resolveWheres ⟨env', generics, selfType⟩ := by
  funext wheres
  simp only [resolveWheres, resolve_eq hfaces]

theorem signature_eq (generics : List String) (selfType : Ty) :
    signature ⟨env, generics, selfType⟩ = signature ⟨env', generics, selfType⟩ := by
  funext item
  have hparam : ∀ generics, resolveParam ⟨env, generics, selfType⟩ =
      resolveParam ⟨env', generics, selfType⟩ := by
    intro generics
    funext param
    simp only [resolveParam, resolve_eq hfaces]
  simp only [signature, withGenerics, resolveParams_eq hfaces, hparam, resolve_eq hfaces,
    resolveWheres_eq hfaces]

end Faces

end Scope

section Elaboration

variable {env env' : Environment}

theorem AliasDef.elaborate_congr (item : AliasDef)
    (h : ∀ name ∈ item.consulted, env.face? name = env'.face? name) :
    item.elaborate env = item.elaborate env' := by
  simp only [AliasDef.consulted, List.mem_append, List.mem_flatMap] at h
  have htarget : Scope.resolve { env := env, generics := TypeParam.names item.generics }
        item.target =
      Scope.resolve { env := env', generics := TypeParam.names item.generics } item.target :=
    Scope.resolve_congr item.target fun name hname => h name (.inr hname)
  have hparams : Scope.resolveParams { env := env, generics := TypeParam.names item.generics }
        item.generics =
      Scope.resolveParams { env := env', generics := TypeParam.names item.generics }
        item.generics := by
    refine List.map_congr_left fun param hparam => ?_
    refine congrArg (TypeParam.mk param.name) (List.map_congr_left fun bound hbound => ?_)
    exact Scope.resolve_congr bound fun name hname =>
      h name (.inl ⟨param, hparam, bound, hbound, hname⟩)
  simp only [AliasDef.elaborate, htarget, hparams]

-- The placeholders of a self pattern depend on the kinds of declarations only.
theorem isPlaceholder_congr {generics : List String} {name : String}
    (h : env.face? name = env'.face? name) :
    env.isPlaceholder generics name = env'.isPlaceholder generics name := by
  have hkind : (env.lookup? name).map Declaration.kindName =
      (env'.lookup? name).map Declaration.kindName := by
    have := congrArg (Option.map Face.kind) h
    simpa [Environment.face?, Declaration.face, Function.comp_def] using this
  simp only [Environment.isPlaceholder]
  split_ifs
  · rfl
  · rfl
  · rfl
  · cases hfirst : env.lookup? name with
    | none =>
        cases hsecond : env'.lookup? name with
        | none => rfl
        | some other => simp [hfirst, hsecond] at hkind
    | some decl =>
        cases hsecond : env'.lookup? name with
        | none => simp [hfirst, hsecond] at hkind
        | some other =>
            have hsame : decl.kindName = other.kindName := by simpa [hfirst, hsecond] using hkind
            cases decl <;> cases other <;> first | rfl | simp [Declaration.kindName] at hsame

variable (hfaces : ∀ name, env.face? name = env'.face? name)

include hfaces

theorem StructDef.elaborate_eq (item : StructDef) : item.elaborate env = item.elaborate env' := by
  simp only [StructDef.elaborate, Scope.resolveParams_eq hfaces, Scope.resolve_eq hfaces,
    Scope.resolveWheres_eq hfaces]

theorem UnionDef.elaborate_eq (item : UnionDef) : item.elaborate env = item.elaborate env' := by
  simp only [UnionDef.elaborate, Scope.resolveParams_eq hfaces, Scope.resolve_eq hfaces]

theorem InterfaceDef.elaborate_eq (item : InterfaceDef) :
    item.elaborate env = item.elaborate env' := by
  have hplaceholders : item.shell.constructorPlaceholders env =
      item.shell.constructorPlaceholders env' := by
    have hopen : env.isPlaceholder item.shell.genericNames =
        env'.isPlaceholder item.shell.genericNames := by
      funext name
      exact isPlaceholder_congr (hfaces name)
    simp only [InterfaceDecl.constructorPlaceholders, hopen]
  simp only [InterfaceDef.elaborate, hplaceholders, Scope.resolveParams_eq hfaces,
    Scope.resolveWheres_eq hfaces, Scope.signature_eq hfaces]

end Elaboration

namespace Item

-- The declaration of a struct, a union or an interface.
def declaration? (env : Environment) : Item → Option Declaration
  | .struct item => some (.struct (item.elaborate env))
  | .union item => some (.union (item.elaborate env))
  | .interface item => some (.interface (item.elaborate env))
  | _ => none

theorem declaration?_congr {env env' : Environment}
    (hfaces : ∀ name, env.face? name = env'.face? name) (item : Item) :
    item.declaration? env = item.declaration? env' := by
  cases item with
  | struct item => rw [declaration?, declaration?, item.elaborate_eq hfaces]
  | union item => rw [declaration?, declaration?, item.elaborate_eq hfaces]
  | interface item => rw [declaration?, declaration?, item.elaborate_eq hfaces]
  | _ => rfl

theorem names_openParams (params : List (TypeParam TypeExpr)) :
    TypeParam.names (openParams params) = TypeParam.names params := by
  simp [TypeParam.names, openParams, Function.comp_def]

theorem names_resolveParams (scope : Scope) (params : List (TypeParam TypeExpr)) :
    TypeParam.names (scope.resolveParams params) = TypeParam.names params := by
  simp [TypeParam.names, Scope.resolveParams, Function.comp_def]

-- A declaration shows the face of the shell that it replaces.
theorem face_declaration {item : Item} {env : Environment} {decl : Declaration}
    (h : item.declaration? env = some decl) : item.shell?.map Declaration.face = some decl.face := by
  cases item with
  | struct item =>
      obtain rfl := Option.some.inj h
      simp [shell?, StructDef.shell, StructDef.elaborate, Declaration.face, Declaration.kindName,
        Declaration.toTy, Declaration.params, names_openParams, names_resolveParams]
  | union item =>
      obtain rfl := Option.some.inj h
      simp [shell?, UnionDef.shell, UnionDef.elaborate, Declaration.face, Declaration.kindName,
        Declaration.toTy, Declaration.params, names_openParams, names_resolveParams]
  | interface item =>
      obtain rfl := Option.some.inj h
      simp [shell?, InterfaceDef.shell, InterfaceDef.elaborate, Declaration.face,
        Declaration.kindName, Declaration.toTy, Declaration.params, InterfaceDecl.toTy,
        InterfaceDecl.genericNames, names_openParams, names_resolveParams]
  | _ => cases h

end Item

end Conformance
