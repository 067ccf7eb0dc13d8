import Conformance.Proofs.ClosedImplementations
import Conformance.Proofs.TypeOutlines

namespace Conformance

namespace Ty

-- The substitution under which the signatures of an interface are compared.
def selfIs (target : Ty) : Substitution := Bindings.ofList [("Self", target)]

theorem get?_selfIs (target : Ty) (name : String) :
    (selfIs target).get? name = if "Self" = name then some target else none := by
  rw [selfIs, Bindings.ofList, List.foldl_cons, List.foldl_nil, Bindings.get?_insert]
  rfl

theorem instantiate_self (target : Ty) :
    (Ty.param "Self").instantiate (selfIs target) = target := by
  simp [instantiate, get?_selfIs]

theorem instantiate_other {name : String} (h : name ≠ "Self") (target : Ty) :
    (Ty.param name).instantiate (selfIs target) = .param name := by
  simp [instantiate, get?_selfIs, Ne.symm h]

-- Whether two types are the same, or else whether they say the same.
def agrees (exact : Bool) (a b : Ty) : Bool := if exact then a = b else a.equivalent b

def allAgree (exact : Bool) (xs ys : List Ty) : Bool :=
  if exact then xs = ys else allEquivalent xs ys

section Agreement

variable (exact : Bool)

@[simp] theorem agrees_refl (t : Ty) : agrees exact t t = true := by
  cases exact <;> simp [agrees, equivalent_refl]

@[simp] theorem allAgree_nil : allAgree exact [] [] = true := by
  cases exact <;> simp [allAgree, allEquivalent]

@[simp] theorem allAgree_cons (x y : Ty) (xs ys : List Ty) :
    allAgree exact (x :: xs) (y :: ys) = (agrees exact x y && allAgree exact xs ys) := by
  cases exact <;> simp [agrees, allAgree, allEquivalent]

@[simp] theorem agrees_nullable (x y : Ty) :
    agrees exact (.nullable x) (.nullable y) = agrees exact x y := by
  cases exact <;> simp [agrees, equivalent, resolveAlias]

@[simp] theorem agrees_unary (constructor : Unary) (x y : Ty) :
    agrees exact (.unary constructor x) (.unary constructor y) = agrees exact x y := by
  cases exact <;> simp [agrees, equivalent_unary, nominal?, resolveAlias, isUnknown]

@[simp] theorem agrees_map (key key' value value' : Ty) :
    agrees exact (.map key value) (.map key' value') =
      (agrees exact key key' && agrees exact value value') := by
  cases exact <;> simp [agrees, equivalent_map, nominal?, resolveAlias, isUnknown]

@[simp] theorem agrees_anyOf (xs ys : List Ty) :
    agrees exact (.anyOf xs) (.anyOf ys) = allAgree exact xs ys := by
  cases exact <;> simp [agrees, allAgree, equivalent, resolveAlias]

@[simp] theorem agrees_function (params params' : List Ty) (result result' : Ty) :
    agrees exact (.function (.plain params result)) (.function (.plain params' result')) =
      (allAgree exact params params' && agrees exact result result') := by
  cases exact <;>
    simp [agrees, allAgree, equivalent, resolveAlias, signaturesEquivalent, Signature.plain]

-- What is unknown agrees with all, but is the same only as itself.
theorem agrees_unknown {t : Ty} (h : t ≠ .unknown) : agrees exact .unknown t = !exact := by
  cases exact <;> simp [agrees, equivalent, Ne.symm h]

-- A constructor never agrees with what has none and is known.
theorem agrees_constructor_open {a b : Ty} {n : Nominal} (ha : a.nominal? = some n)
    (hb : b.nominal? = none) (hknown : b.resolveAlias.isUnknown = false) :
    agrees exact a b = false := by
  cases exact with
  | true =>
      have hne : a ≠ b := by
        rintro rfl
        cases ha.symm.trans hb
      simp [agrees, hne]
  | false => simp [agrees, equivalent_eq_agrees, Ty.agrees_constructor ha, hb, hknown]

end Agreement

section Applications

-- A built-in type that is applied once more, to as many arguments as it takes.
def isContracted : Ty → Nat → Bool
  | .unary _ _, 1 => true
  | .map _ _, 2 => true
  | _, _ => false

theorem applyTo_eq_applied_iff {base other : Ty} {xs ys : List Ty} :
    applyTo base xs = .applied other ys ↔
      base.isContracted xs.length = false ∧ base = other ∧ xs = ys := by
  rw [applyTo.eq_def]
  split
  · simp [isContracted]
  · simp [isContracted]
  · rename_i hunary hmap
    have hopen : base.isContracted xs.length = false := by
      rw [isContracted.eq_def]
      split
      · rename_i hlength
        obtain ⟨x, hx⟩ := List.length_eq_one_iff.mp hlength
        exact (hunary _ _ x rfl hx).elim
      · rename_i hlength
        obtain ⟨x, y, hxy⟩ := List.length_eq_two.mp hlength
        exact (hmap _ _ x y rfl hxy).elim
      · rfl
    simp [hopen]

-- It does not matter to a comparison whether an application is contracted.
theorem outline_applyTo (base : Ty) (args : List Ty) :
    (applyTo base args).outline = (Ty.applied base args).outline := by
  rw [applyTo.eq_def]
  split <;> rfl

-- How the arguments of two applications are compared, if the applications agree at all: one by
-- one if a constructor is applied, and as they are written if it is something else.
def argumentMode (exact : Bool) (a b : Ty) (count : Nat) : Option Bool :=
  if exact then if a = b ∧ a.isContracted count = false then some true else none
  else
    match a.nominal?, b.nominal? with
    | some m, some n => if m.sameHead n then some false else none
    | none, none => if a = b then some true else none
    | _, _ => none

theorem agrees_applyTo (exact : Bool) (a b : Ty) (xs ys : List Ty) :
    agrees exact (applyTo a xs) (.applied b ys) =
      (argumentMode exact a b xs.length).any fun mode => allAgree mode xs ys := by
  cases exact with
  | true =>
      rw [agrees, if_pos rfl, argumentMode, if_pos rfl]
      by_cases h : a = b ∧ a.isContracted xs.length = false
      · rw [if_pos h]
        simp [applyTo_eq_applied_iff, h.1, h.1 ▸ h.2, allAgree]
      · rw [if_neg h, Option.any_none, decide_eq_false_iff_not, applyTo_eq_applied_iff]
        exact fun heq => h ⟨heq.2.1, heq.1⟩
  | false =>
      have hcontracted : agrees false (applyTo a xs) (.applied b ys) =
          equivalent (.applied a xs) (.applied b ys) := by
        simp only [agrees, Bool.false_eq_true, if_false, equivalent_eq_agrees, outline_applyTo]
      rw [hcontracted, argumentMode, if_neg Bool.false_ne_true]
      cases ha : a.nominal? with
      | some m =>
          rw [equivalent_applied ha]
          cases hb : b.nominal? with
          | some n =>
              have hopened : m.sameHead { n with args := ys, bare := false } = m.sameHead n := rfl
              cases hsame : m.sameHead n <;>
                simp [nominal?, hb, resolveAlias, isUnknown, allAgree, hsame, hopened]
          | none => simp [nominal?, hb, resolveAlias, isUnknown]
      | none =>
          rw [equivalent_applied_open ha]
          cases hb : b.nominal? with
          | some n =>
              have hne : a ≠ b := by
                rintro rfl
                cases ha.symm.trans hb
              simp [resolveAlias, isUnknown, hne]
          | none => by_cases hsame : a = b <;> simp [resolveAlias, isUnknown, hsame, allAgree]

end Applications

end Ty

def Declaration.isAlias : Declaration → Bool
  | .alias _ => true
  | _ => false

-- What is declared is applied to its arguments, apart from aliases that take them themselves.
def Declaration.isHead : Declaration → Bool
  | .function _ => false
  | .alias decl => decl.generics.isEmpty
  | _ => true

-- One environment has what another has apart from functions.
def Environment.HasTypesOf (early late : Environment) : Prop :=
  ∀ name, early.lookup? name = (late.lookup? name).filter fun decl => !decl.isFunction

theorem Builtin.ofName?_eq_some {name : String} {builtin : Builtin}
    (h : Builtin.ofName? name = some builtin) :
    (name ≠ "_" ∧ name ≠ "" ∧ name ≠ "Self") ∧ Scalar.ofName? name = none := by
  rw [Builtin.ofName?.eq_def] at h
  split at h
  case h_6 => cases h
  all_goals decide

-- What a name is before it is looked up, if it is.
inductive NameKind (generics : List String) (name : String) : Prop
  | blank (h : name = "_" ∨ name = "")
  | self (h : name = "Self")
  | generic (hopen : name ≠ "_" ∧ name ≠ "" ∧ name ≠ "Self") (h : name ∈ generics)
  | scalar (hopen : name ≠ "_" ∧ name ≠ "" ∧ name ≠ "Self") (hscope : name ∉ generics)
      (kind : Scalar) (h : Scalar.ofName? name = some kind)
  | builtin (hopen : name ≠ "_" ∧ name ≠ "" ∧ name ≠ "Self") (hscope : name ∉ generics)
      (hscalar : Scalar.ofName? name = none) (builtin : Builtin)
      (h : Builtin.ofName? name = some builtin)
  | lookedUp (h : isLookedUp generics name = true)

theorem nameKind (generics : List String) (name : String) : NameKind generics name := by
  by_cases hblank : name = "_" ∨ name = ""
  · exact .blank hblank
  by_cases hself : name = "Self"
  · exact .self hself
  have hopen : name ≠ "_" ∧ name ≠ "" ∧ name ≠ "Self" :=
    ⟨fun h => hblank (.inl h), fun h => hblank (.inr h), hself⟩
  by_cases hscope : name ∈ generics
  · exact .generic hopen hscope
  cases hscalar : Scalar.ofName? name with
  | some kind => exact .scalar hopen hscope kind hscalar
  | none =>
      cases hbuiltin : Builtin.ofName? name with
      | some builtin => exact .builtin hopen hscope hscalar builtin hbuiltin
      | none => exact .lookedUp (by simp [isLookedUp, hopen, hscope, hscalar, hbuiltin])

namespace Scope

variable {env early late : Environment} {outer inner generics : List String} {selfType target : Ty}
  {name : String}

-- Functions are no types.
theorem resolveName_hasTypesOf (h : early.HasTypesOf late) (args : List Ty) :
    resolveName ⟨early, generics, selfType⟩ name args =
      resolveName ⟨late, generics, selfType⟩ name args := by
  cases hlooked : isLookedUp generics name with
  | false => exact resolveName_fixed args hlooked
  | true =>
      rw [resolveName_lookedUp args hlooked, resolveName_lookedUp args hlooked]
      rw [h name]
      cases late.lookup? name with
      | none => rfl
      | some decl => cases decl <;> rfl

theorem resolveName_self (scope : Scope) (args : List Ty) :
    scope.resolveName "Self" args = appliedOrBare scope.selfType args := by
  simp [resolveName]

theorem resolveName_generic {scope : Scope} (hopen : name ≠ "_" ∧ name ≠ "" ∧ name ≠ "Self")
    (h : name ∈ scope.generics) (args : List Ty) :
    scope.resolveName name args = appliedOrBare (.param name) args := by
  simp [resolveName, hopen, h]

theorem resolveName_scalar {scope : Scope} (hopen : name ≠ "_" ∧ name ≠ "" ∧ name ≠ "Self")
    (hscope : name ∉ scope.generics) {kind : Scalar} (h : Scalar.ofName? name = some kind)
    (args : List Ty) : scope.resolveName name args = .scalar kind := by
  simp [resolveName, hopen, hscope, h]

-- A built-in constructor takes as many arguments as it needs.
def ofBuiltin (args : List Ty) : Builtin → Ty
  | .unary constructor => .unary constructor (argAt args 0)
  | .map => .map (argAt args 0) (argAt args 1)

theorem resolveName_builtin {scope : Scope} (hopen : name ≠ "_" ∧ name ≠ "" ∧ name ≠ "Self")
    (hscope : name ∉ scope.generics) (hscalar : Scalar.ofName? name = none) {builtin : Builtin}
    (h : Builtin.ofName? name = some builtin) (args : List Ty) :
    scope.resolveName name args = ofBuiltin args builtin := by
  cases builtin <;> simp [resolveName, hopen, hscope, hscalar, h, ofBuiltin]

-- Further generics change nothing for a name that is known before they are asked.
theorem resolveName_append
    (h : name ∈ outer → name = "_" ∨ name = "" ∨ name = "Self" ∨ name ∈ inner) (args : List Ty) :
    resolveName ⟨env, outer ++ inner, selfType⟩ name args =
      resolveName ⟨env, inner, selfType⟩ name args := by
  simp only [resolveName, List.mem_append]
  split_ifs <;> simp_all

theorem instantiate_appliedOrBare (s : Substitution) (base : Ty) {args : List Ty} (h : args ≠ []) :
    (appliedOrBare base args).instantiate s =
      Ty.applyTo (base.instantiate s) (args.map (Ty.instantiate s)) := by
  simp [appliedOrBare, h, Ty.instantiate]

-- Whether a name is applied to its arguments.
def isHead (env : Environment) (generics : List String) (name : String) : Bool :=
  name ≠ "_" && name ≠ "" && (name = "Self" || generics.contains name ||
    (isLookedUp generics name && (env.lookup? name).any Declaration.isHead))

theorem isHead_lookedUp (h : isLookedUp generics name = true) :
    isHead env generics name = (env.lookup? name).any Declaration.isHead := by
  have hplain := h
  simp only [isLookedUp, Bool.not_eq_true', Bool.or_eq_false_iff, decide_eq_false_iff_not]
    at hplain
  obtain ⟨⟨⟨⟨⟨hwildcard, hempty⟩, hself⟩, hgeneric⟩, -⟩, -⟩ := hplain
  have hscope : name ∉ generics := by simpa using hgeneric
  simp [isHead, hwildcard, hempty, hself, hscope, h]

theorem resolveName_head (h : isHead env generics name = true) (args : List Ty) :
    resolveName ⟨env, generics, selfType⟩ name args =
      appliedOrBare (resolveName ⟨env, generics, selfType⟩ name []) args := by
  cases nameKind generics name with
  | blank hblank => rcases hblank with rfl | rfl <;> simp [isHead] at h
  | self hself =>
      subst hself
      rw [resolveName_self, resolveName_self]
      rfl
  | generic hopen hgeneric =>
      rw [resolveName_generic hopen hgeneric, resolveName_generic hopen hgeneric]
      rfl
  | scalar hopen hscope kind hkind => simp [isHead, isLookedUp, hopen, hscope, hkind] at h
  | builtin hopen hscope _ builtin hbuiltin =>
      simp [isHead, isLookedUp, hopen, hscope, hbuiltin] at h
  | lookedUp hlooked =>
      rw [resolveName_lookedUp args hlooked, resolveName_lookedUp [] hlooked]
      rw [isHead_lookedUp hlooked] at h
      cases hfound : env.lookup? name with
      | none => simp [hfound] at h
      | some decl =>
          rw [hfound] at h
          cases decl with
          | function type => cases h
          | «alias» decl =>
              have hplain : decl.generics.isEmpty = true := h
              simp [meaning, hplain, appliedOrBare]
          | _ => rfl

-- A name alone that is no alias means the same once `Self` is replaced.
theorem instantiate_resolveName
    (h : isLookedUp generics name = true → (env.lookup? name).any Declaration.isAlias = false) :
    (resolveName ⟨env, generics, .param "Self"⟩ name []).instantiate (Ty.selfIs target) =
      resolveName ⟨env, generics, target⟩ name [] := by
  cases nameKind generics name with
  | blank hblank => simp [resolveName, hblank, Ty.instantiate]
  | self hself =>
      subst hself
      rw [resolveName_self, resolveName_self]
      exact Ty.instantiate_self target
  | generic hopen hgeneric =>
      rw [resolveName_generic hopen hgeneric, resolveName_generic hopen hgeneric]
      exact Ty.instantiate_other hopen.2.2 target
  | scalar hopen hscope kind hkind =>
      rw [resolveName_scalar hopen hscope hkind, resolveName_scalar hopen hscope hkind]
      rfl
  | builtin hopen hscope hscalar builtin hbuiltin =>
      rw [resolveName_builtin hopen hscope hscalar hbuiltin,
        resolveName_builtin hopen hscope hscalar hbuiltin]
      cases builtin <;> rfl
  | lookedUp hlooked =>
      have halias := h hlooked
      rw [resolveName_lookedUp [] hlooked, resolveName_lookedUp [] hlooked]
      cases hfound : env.lookup? name with
      | none => rfl
      | some decl =>
          rw [hfound] at halias
          cases decl with
          | «alias» decl => cases halias
          | _ => rfl

-- Scalars and what is unknown take no arguments.
theorem resolveName_ignores (hhead : isHead env generics name = false)
    (hbuiltin : name ∉ generics → Builtin.ofName? name = none)
    (halias : isLookedUp generics name = true → (env.lookup? name).any Declaration.isAlias = false)
    (args : List Ty) :
    resolveName ⟨env, generics, selfType⟩ name args =
      resolveName ⟨env, generics, selfType⟩ name [] := by
  cases nameKind generics name with
  | blank hblank => simp [resolveName, hblank]
  | self hself =>
      subst hself
      simp [isHead] at hhead
  | generic hopen hgeneric => simp [isHead, hopen, hgeneric] at hhead
  | scalar hopen hscope kind hkind =>
      rw [resolveName_scalar hopen hscope hkind, resolveName_scalar hopen hscope hkind]
  | builtin hopen hscope _ builtin hfound => cases (hbuiltin hscope).symm.trans hfound
  | lookedUp hlooked =>
      have halias := halias hlooked
      rw [resolveName_lookedUp args hlooked, resolveName_lookedUp [] hlooked]
      rw [isHead_lookedUp hlooked] at hhead
      cases hfound : env.lookup? name with
      | none => rfl
      | some decl =>
          rw [hfound] at halias hhead
          cases decl with
          | function type => rfl
          | «alias» decl => cases halias
          | _ => cases hhead

-- What is declared otherwise is a constructor, whatever `Self` is.
theorem isSome_nominal?_meaning {decl : Declaration} (hfunction : decl.isFunction = false)
    (halias : decl.isAlias = false) (s : Substitution) (args : List Ty) :
    ((meaning args decl).instantiate s).nominal?.isSome = true := by
  have hbase {base : Ty} (h : base.nominal?.isSome = true) :
      ((appliedOrBare base args).instantiate s).nominal?.isSome = true := by
    have hnominal : (appliedOrBare base args).nominal?.isSome = true := by
      rw [appliedOrBare]
      split
      · exact h
      · simpa [Ty.nominal?] using h
    obtain ⟨n, hn⟩ := Option.isSome_iff_exists.mp hnominal
    simp [Ty.nominal?_instantiate s hn]
  cases decl with
  | function type => cases hfunction
  | «alias» decl => cases halias
  | _ => exact hbase rfl

-- A parameter, applied or not, agrees with nothing that is known and is no parameter.
theorem agrees_appliedParam {exact : Bool} {t : Ty}
    (h : t.nominal?.isSome = true ∨ ∃ kind, t = .scalar kind) (args : List Ty) :
    Ty.agrees exact t (appliedOrBare (.param name) args) = false := by
  rcases h with hnominal | ⟨kind, rfl⟩
  · obtain ⟨n, hn⟩ := Option.isSome_iff_exists.mp hnominal
    apply Ty.agrees_constructor_open exact hn <;> rw [appliedOrBare] <;> split <;> rfl
  · rw [appliedOrBare]
    cases exact <;> split <;> simp [Ty.agrees, Ty.equivalent, Ty.resolveAlias]

theorem agrees_unknown_appliedParam {exact : Bool} (args : List Ty) :
    Ty.agrees exact .unknown (appliedOrBare (.param name) args) = !exact := by
  apply Ty.agrees_unknown
  rw [appliedOrBare]
  split <;> simp

-- Built-in constructors agree as far as they take arguments.
theorem agrees_ofBuiltin (exact : Bool) (s : Substitution) (builtin : Builtin) {xs ys : List Ty}
    (hlength : xs.length = ys.length) :
    Ty.agrees exact ((ofBuiltin xs builtin).instantiate s) (ofBuiltin ys builtin) =
      Ty.allAgree exact ((xs.map (Ty.instantiate s)).take builtin.arity)
        (ys.take builtin.arity) := by
  rcases xs with _ | ⟨x, _ | ⟨x', xs⟩⟩ <;> rcases ys with _ | ⟨y, _ | ⟨y', ys⟩⟩ <;>
    simp at hlength <;>
    cases builtin <;> simp [ofBuiltin, argAt, Ty.instantiate, Builtin.arity]

end Scope

end Conformance
