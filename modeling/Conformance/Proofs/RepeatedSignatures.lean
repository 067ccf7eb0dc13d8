import Conformance.Proofs.Completion
import Conformance.Proofs.SelfMeaning

namespace Conformance

-- A signature of an interface that is read again in a block: where there are functions besides
-- the types, with the generics of the block besides those of the signature, and with the target
-- of the block for `Self`.
structure Repetition where
  early : Environment
  env : Environment
  outer : List String
  inner : List String
  target : Ty

namespace Repetition

-- What the interface asks for, once `Self` is the target.
def asked (r : Repetition) (e : TypeExpr) : Ty :=
  (Scope.resolve ⟨r.early, r.inner, .param "Self"⟩ e).instantiate (Ty.selfIs r.target)

-- What the block gives.
def given (r : Repetition) (e : TypeExpr) : Ty :=
  Scope.resolve ⟨r.env, r.outer ++ r.inner, r.target⟩ e

def agrees (r : Repetition) (exact : Bool) (e : TypeExpr) : Bool :=
  Ty.agrees exact (r.asked e) (r.given e)

-- A generic of the block that hides what the interface calls so.
def shadows (r : Repetition) (name : String) : Bool :=
  name ≠ "_" && name ≠ "" && name ≠ "Self" && r.outer.contains name && !r.inner.contains name

def isAlias (r : Repetition) (name : String) : Bool :=
  isLookedUp r.inner name && (r.env.lookup? name).any Declaration.isAlias

-- Whether a name is a type to the interface.
def knows (r : Repetition) (name : String) : Bool :=
  !isLookedUp r.inner name || r.env.declaresType name

-- Whether a name reads alike in both places. An alias does if what it stands for does. Any other
-- name may only change if a generic of the block hides it, and that is of no account where the
-- interface does not know it and what is unknown is not compared.
def keepsName (r : Repetition) (exact : Bool) (name : String) (e : TypeExpr) : Bool :=
  if r.isAlias name then r.agrees exact e
  else !r.shadows name || (!exact && !r.knows name)

-- Names that are applied to their arguments in both places.
def isHead (r : Repetition) (name : String) : Bool :=
  !r.shadows name && Scope.isHead r.env r.inner name

-- How the arguments of an application are compared, if it can read alike at all.
def argumentMode (r : Repetition) (exact : Bool) (base : TypeExpr) (count : Nat) : Option Bool :=
  Ty.argumentMode exact (r.asked base) (r.given base) count

def builtin? (r : Repetition) (name : String) : Option Builtin :=
  if r.shadows name || r.inner.contains name then none else Builtin.ofName? name

mutual
-- Whether an expression reads alike in both places: as the same type if it must be exact, and
-- else as an equivalent one.
def keeps (r : Repetition) (exact : Bool) : TypeExpr → Bool
  | .wildcard _ => true
  | .simple name span => r.keepsName exact name (.simple name span)
  | .generic base args span =>
      match base with
      | .simple name _ =>
          if r.isHead name && !args.isEmpty then
            (r.argumentMode exact base args.length).any fun mode =>
              keepsFirst r mode args.length args
          else
            match r.builtin? name with
            | some builtin => keepsFirst r exact builtin.arity args
            | none => r.keepsName exact name (.generic base args span)
      | _ =>
          (r.argumentMode exact base args.length).any fun mode =>
            keepsFirst r mode args.length args
  | .nullable inner _ => keeps r exact inner
  | .result inner _ =>
      keeps r exact inner &&
        Ty.agrees exact (r.early.errorType.instantiate (Ty.selfIs r.target)) r.env.errorType
  | .function params returns _ => keepsFirst r exact params.length params && keeps r exact returns
  | .union members _ => keepsFirst r exact members.length members
-- The same of the first expressions of a list.
def keepsFirst (r : Repetition) (exact : Bool) : Nat → List TypeExpr → Bool
  | 0, _ => true
  | _, [] => true
  | count + 1, e :: es => keeps r exact e && keepsFirst r exact count es
end

variable {r : Repetition} {exact : Bool} {name : String}

section Readings

theorem asked_generic {base : TypeExpr} (h : base.simpleName? = none) (args : List TypeExpr)
    (span : Span) :
    r.asked (.generic base args span) = Ty.applyTo (r.asked base) (args.map r.asked) := by
  simp only [asked, Scope.resolve_generic h, Scope.resolveAll_eq, Ty.instantiate,
    Ty.instantiateAll_eq, List.map_map]
  rfl

theorem given_generic {base : TypeExpr} (h : base.simpleName? = none) (args : List TypeExpr)
    (span : Span) :
    r.given (.generic base args span) = .applied (r.given base) (args.map r.given) := by
  simp only [given, Scope.resolve_generic h, Scope.resolveAll_eq]
  rfl

theorem agrees_nullable (inner : TypeExpr) (span : Span) :
    r.agrees exact (.nullable inner span) = r.agrees exact inner :=
  Ty.agrees_nullable exact (r.asked inner) (r.given inner)

theorem agrees_result (inner : TypeExpr) (span : Span) :
    r.agrees exact (.result inner span) =
      (r.agrees exact inner &&
        Ty.agrees exact (r.early.errorType.instantiate (Ty.selfIs r.target))
          r.env.errorType) := by
  refine (Ty.agrees_anyOf exact [r.asked inner, r.early.errorType.instantiate (Ty.selfIs r.target)]
    [r.given inner, r.env.errorType]).trans ?_
  simp [agrees]

theorem agrees_function (params : List TypeExpr) (returns : TypeExpr) (span : Span) :
    r.agrees exact (.function params returns span) =
      (Ty.allAgree exact (params.map r.asked) (params.map r.given) && r.agrees exact returns) := by
  refine Eq.trans ?_ (Ty.agrees_function exact (params.map r.asked) (params.map r.given)
    (r.asked returns) (r.given returns))
  simp only [agrees, asked, given, Scope.resolve, Scope.resolveAll_eq, Ty.instantiate,
    Signature.plain, Ty.instantiateSignature, Ty.instantiateAll_eq, List.map_map]
  rfl

theorem agrees_union (members : List TypeExpr) (span : Span) :
    r.agrees exact (.union members span) =
      Ty.allAgree exact (members.map r.asked) (members.map r.given) := by
  refine Eq.trans ?_ (Ty.agrees_anyOf exact (members.map r.asked) (members.map r.given))
  simp only [agrees, asked, given, Scope.resolve, Scope.resolveAll_eq, Ty.instantiate,
    Ty.instantiateAll_eq, List.map_map]
  rfl

end Readings

section Names

-- What a name with arguments means to the interface and in the block.
def askedName (r : Repetition) (name : String) (args : List Ty) : Ty :=
  (Scope.resolveName ⟨r.early, r.inner, .param "Self"⟩ name args).instantiate (Ty.selfIs r.target)

def givenName (r : Repetition) (name : String) (args : List Ty) : Ty :=
  Scope.resolveName ⟨r.env, r.outer ++ r.inner, r.target⟩ name args

variable (htypes : r.early.HasTypesOf r.env)

theorem shadows_eq_false_iff : r.shadows name = false ↔
    (name ∈ r.outer → name = "_" ∨ name = "" ∨ name = "Self" ∨ name ∈ r.inner) := by
  simp only [shadows, Bool.and_eq_false_imp, Bool.and_eq_true, decide_eq_true_eq,
    List.contains_iff_mem, Bool.not_eq_false']
  tauto

theorem givenName_unshadowed (h : r.shadows name = false) (args : List Ty) :
    r.givenName name args = Scope.resolveName ⟨r.env, r.inner, r.target⟩ name args :=
  Scope.resolveName_append (shadows_eq_false_iff.mp h) args

include htypes

theorem askedName_eq (args : List Ty) :
    r.askedName name args =
      (Scope.resolveName ⟨r.env, r.inner, .param "Self"⟩ name args).instantiate
        (Ty.selfIs r.target) := by
  rw [askedName, Scope.resolveName_hasTypesOf htypes]

-- A generic of the block agrees with what it hides only if that is unknown.
theorem agrees_shadowed (hshadows : r.shadows name = true) (halias : r.isAlias name = false)
    (xs ys : List Ty) :
    Ty.agrees exact (r.askedName name xs) (r.givenName name ys) = (!exact && !r.knows name) := by
  simp only [shadows, Bool.and_eq_true, decide_eq_true_eq, List.contains_iff_mem,
    Bool.not_eq_true'] at hshadows
  obtain ⟨⟨⟨⟨hwildcard, hempty⟩, hself⟩, houter⟩, hinner⟩ := hshadows
  have hgiven : r.givenName name ys = Scope.appliedOrBare (.param name) ys :=
    Scope.resolveName_generic ⟨hwildcard, hempty, hself⟩ (List.mem_append_left _ houter) ys
  rw [askedName_eq htypes, hgiven]
  cases nameKind r.inner name with
  | blank hblank => exact absurd hblank (not_or.mpr ⟨hwildcard, hempty⟩)
  | self heq => exact absurd heq hself
  | generic _ hgeneric => simp [hgeneric] at hinner
  | scalar hopen hscope kind hkind =>
      rw [Scope.resolveName_scalar hopen hscope hkind, Ty.instantiate,
        Scope.agrees_appliedParam (.inr ⟨kind, rfl⟩)]
      simp [knows, isLookedUp, hkind]
  | builtin hopen hscope hscalar builtin hbuiltin =>
      rw [Scope.resolveName_builtin hopen hscope hscalar hbuiltin, Scope.agrees_appliedParam]
      · simp [knows, isLookedUp, hbuiltin]
      · cases builtin <;> exact .inl rfl
  | lookedUp hlooked =>
      rw [Scope.resolveName_lookedUp xs hlooked]
      rw [isAlias, hlooked, Bool.true_and] at halias
      rw [knows, hlooked, Environment.declaresType]
      cases hfound : r.env.lookup? name with
      | none => simp [Ty.instantiate, Scope.agrees_unknown_appliedParam]
      | some decl =>
          rw [hfound] at halias
          cases hfunction : decl.isFunction with
          | true =>
              cases decl with
              | function type =>
                  simp [Scope.meaning, Ty.instantiate, hfunction,
                    Scope.agrees_unknown_appliedParam]
              | _ => cases hfunction
          | false =>
              have hnominal := Scope.isSome_nominal?_meaning hfunction halias
                (Ty.selfIs r.target) xs
              refine (Scope.agrees_appliedParam (.inl hnominal) ys).trans ?_
              simp [hfunction]

-- Any other name that takes no arguments, or is given none, means the same in both places.
theorem askedName_eq_givenName (hshadows : r.shadows name = false)
    (halias : r.isAlias name = false) {xs ys : List Ty}
    (hargs : xs = [] ∧ ys = [] ∨ r.isHead name = false ∧ r.builtin? name = none) :
    r.askedName name xs = r.givenName name ys := by
  have halias : isLookedUp r.inner name = true →
      (r.env.lookup? name).any Declaration.isAlias = false := by
    intro hlooked
    simpa [isAlias, hlooked] using halias
  rw [askedName_eq htypes, givenName_unshadowed hshadows]
  rcases hargs with ⟨rfl, rfl⟩ | ⟨hhead, hbuiltin⟩
  · exact Scope.instantiate_resolveName halias
  · have hhead : Scope.isHead r.env r.inner name = false := by
      simpa [isHead, hshadows] using hhead
    have hbuiltin : name ∉ r.inner → Builtin.ofName? name = none := by
      intro hscope
      simpa [builtin?, hshadows, hscope] using hbuiltin
    rw [Scope.resolveName_ignores hhead hbuiltin halias xs,
      Scope.resolveName_ignores hhead hbuiltin halias ys]
    exact Scope.instantiate_resolveName halias

-- The condition on names is exact.
theorem keepsName_eq {e : TypeExpr} {xs ys : List Ty} (hasked : r.asked e = r.askedName name xs)
    (hgiven : r.given e = r.givenName name ys)
    (hargs : xs = [] ∧ ys = [] ∨ r.isHead name = false ∧ r.builtin? name = none) :
    r.keepsName exact name e = r.agrees exact e := by
  rw [keepsName]
  split
  · rfl
  · rename_i halias
    have halias : r.isAlias name = false := by simpa using halias
    rw [agrees, hasked, hgiven]
    cases hshadows : r.shadows name with
    | true => rw [agrees_shadowed htypes hshadows halias, Bool.not_true, Bool.false_or]
    | false =>
        rw [askedName_eq_givenName htypes hshadows halias hargs, Ty.agrees_refl]
        rfl

-- A head is applied to its arguments on either side.
theorem agrees_head (hhead : r.isHead name = true) {xs ys : List Ty} (hxs : xs ≠ [])
    (hys : ys ≠ []) :
    Ty.agrees exact (r.askedName name xs) (r.givenName name ys) =
      (Ty.argumentMode exact (r.askedName name []) (r.givenName name []) xs.length).any fun mode =>
        Ty.allAgree mode (xs.map (Ty.instantiate (Ty.selfIs r.target))) ys := by
  simp only [isHead, Bool.and_eq_true, Bool.not_eq_true'] at hhead
  obtain ⟨hshadows, hhead⟩ := hhead
  have hasked : r.askedName name xs =
      Ty.applyTo (r.askedName name []) (xs.map (Ty.instantiate (Ty.selfIs r.target))) := by
    rw [askedName_eq htypes, askedName_eq htypes, Scope.resolveName_head hhead,
      Scope.instantiate_appliedOrBare _ _ hxs]
  have hgiven : r.givenName name ys = .applied (r.givenName name []) ys := by
    rw [givenName_unshadowed hshadows, givenName_unshadowed hshadows,
      Scope.resolveName_head hhead, Scope.appliedOrBare, if_neg (by simpa using hys)]
  rw [hasked, hgiven, Ty.agrees_applyTo, List.length_map]

theorem agrees_builtin {builtin : Builtin} (hbuiltin : r.builtin? name = some builtin)
    {xs ys : List Ty} (hlength : xs.length = ys.length) :
    Ty.agrees exact (r.askedName name xs) (r.givenName name ys) =
      Ty.allAgree exact ((xs.map (Ty.instantiate (Ty.selfIs r.target))).take builtin.arity)
        (ys.take builtin.arity) := by
  rw [builtin?] at hbuiltin
  split at hbuiltin
  · cases hbuiltin
  · rename_i hscope
    simp only [Bool.or_eq_true, not_or, Bool.not_eq_true, List.contains_iff_mem] at hscope
    obtain ⟨hshadows, hinner⟩ := hscope
    have hmeaning (selfType : Ty) (args : List Ty) :
        Scope.resolveName ⟨r.env, r.inner, selfType⟩ name args =
          Scope.ofBuiltin args builtin :=
      Scope.resolveName_builtin (Builtin.ofName?_eq_some hbuiltin).1 hinner
        (Builtin.ofName?_eq_some hbuiltin).2 hbuiltin args
    rw [askedName_eq htypes, givenName_unshadowed hshadows, hmeaning, hmeaning]
    exact Scope.agrees_ofBuiltin exact _ builtin hlength

end Names

-- An application reads alike if its head does and its arguments do.
theorem agrees_generic {base : TypeExpr} (h : base.simpleName? = none) (args : List TypeExpr)
    (span : Span) :
    r.agrees exact (.generic base args span) =
      (r.argumentMode exact base args.length).any fun mode =>
        Ty.allAgree mode (args.map r.asked) (args.map r.given) := by
  rw [agrees, asked_generic h, given_generic h, Ty.agrees_applyTo, List.length_map]
  rfl

-- What is written as a name with arguments reads alike if the name does, for the arguments that
-- count.
theorem keeps_named (htypes : r.early.HasTypesOf r.env) {args : List TypeExpr}
    (hargs : ∀ mode count, r.keepsFirst mode count args =
      Ty.allAgree mode ((args.take count).map r.asked) ((args.take count).map r.given))
    (span span' : Span) :
    r.keeps exact (.generic (.simple name span) args span') =
      r.agrees exact (.generic (.simple name span) args span') := by
  have hasked : r.asked (.generic (.simple name span) args span') =
      r.askedName name (args.map (Scope.resolve ⟨r.early, r.inner, .param "Self"⟩)) := by
    simp only [asked, askedName, Scope.resolve, Scope.resolveAll_eq]
  have hgiven : r.given (.generic (.simple name span) args span') =
      r.givenName name (args.map r.given) := by
    simp only [given, givenName, Scope.resolve, Scope.resolveAll_eq]
    rfl
  have hmap : (args.map (Scope.resolve ⟨r.early, r.inner, .param "Self"⟩)).map
      (Ty.instantiate (Ty.selfIs r.target)) = args.map r.asked := List.map_map ..
  rw [keeps]
  split
  · rename_i hhead
    simp only [Bool.and_eq_true, Bool.not_eq_true', List.isEmpty_eq_false_iff] at hhead
    rw [agrees, hasked, hgiven, agrees_head htypes hhead.1 (by simpa using hhead.2)
      (by simpa using hhead.2), hmap, List.length_map]
    simp only [hargs, List.take_length]
    rfl
  · rename_i hhead
    cases hbuiltin : r.builtin? name with
    | some builtin =>
        rw [agrees, hasked, hgiven, agrees_builtin htypes hbuiltin (by simp), hmap,
          ← List.map_take, ← List.map_take]
        exact hargs exact builtin.arity
    | none =>
        refine keepsName_eq htypes hasked hgiven ?_
        rcases args with _ | ⟨arg, args⟩
        · exact .inl ⟨rfl, rfl⟩
        · exact .inr ⟨by simpa using hhead, hbuiltin⟩

mutual
-- The condition is exact: expressions that keep it are those that read alike.
theorem keeps_eq (htypes : r.early.HasTypesOf r.env) (exact : Bool) : (e : TypeExpr) →
    r.keeps exact e = r.agrees exact e
  | .wildcard _ => (Ty.agrees_refl exact .unknown).symm
  | .simple name _ => keepsName_eq htypes rfl rfl (.inl ⟨rfl, rfl⟩)
  | .generic base args span => by
      cases hsimple : base.simpleName? with
      | none =>
          have hargs (mode : Bool) : r.keepsFirst mode args.length args =
              Ty.allAgree mode (args.map r.asked) (args.map r.given) := by
            rw [keepsFirst_eq htypes mode _ args, List.take_length]
          rw [agrees_generic hsimple]
          cases base with
          | simple _ _ => cases hsimple
          | _ => simp only [keeps, hargs]
      | some name =>
          cases base with
          | simple name _ =>
              exact keeps_named htypes (fun mode count => keepsFirst_eq htypes mode count args) _ _
          | _ => cases hsimple
  | .nullable inner span => by
      rw [keeps, keeps_eq htypes exact inner, agrees_nullable]
  | .result inner span => by
      rw [keeps, keeps_eq htypes exact inner, agrees_result]
  | .function params returns span => by
      rw [keeps, keepsFirst_eq htypes exact _ params, List.take_length,
        keeps_eq htypes exact returns, agrees_function]
  | .union members span => by
      rw [keeps, keepsFirst_eq htypes exact _ members, List.take_length, agrees_union]
theorem keepsFirst_eq (htypes : r.early.HasTypesOf r.env) (exact : Bool) : (count : Nat) →
    (es : List TypeExpr) → r.keepsFirst exact count es =
      Ty.allAgree exact ((es.take count).map r.asked) ((es.take count).map r.given)
  | 0, es => by simp [keepsFirst]
  | _ + 1, [] => by simp [keepsFirst]
  | count + 1, e :: es => by
      rw [keepsFirst, keeps_eq htypes exact e, keepsFirst_eq htypes exact count es]
      simp [agrees]
end

end Repetition

namespace Bindings

variable {α : Type}

theorem put_of_not_mem {name : String} {entries : List (String × α)}
    (h : name ∉ entries.map Prod.fst) (value : α) :
    put name value entries = entries ++ [(name, value)] := by
  induction entries with
  | nil => rfl
  | cons entry rest ih =>
      obtain ⟨key, old⟩ := entry
      simp only [List.map_cons, List.mem_cons, not_or] at h
      rw [put, if_neg (Ne.symm h.1), ih h.2]
      rfl

-- Distinct names are bound as they are listed.
theorem entries_ofList {entries : List (String × α)} (h : (entries.map Prod.fst).Nodup) :
    (ofList entries).entries = entries := by
  have hfold (b : Bindings α) (hb : ((b.entries ++ entries).map Prod.fst).Nodup) :
      (entries.foldl (fun b entry => b.insert entry.1 entry.2) b).entries =
        b.entries ++ entries := by
    clear h
    induction entries generalizing b with
    | nil => simp
    | cons entry rest ih =>
        have hnew : entry.1 ∉ b.entries.map Prod.fst := by
          intro hmem
          rw [List.map_append, List.map_cons] at hb
          exact (List.nodup_append.mp hb).2.2 _ hmem _ List.mem_cons_self rfl
        have hput : (b.insert entry.1 entry.2).entries = b.entries ++ [entry] :=
          put_of_not_mem hnew entry.2
        rw [List.foldl_cons, ih _ (by rw [hput, List.append_assoc]; exact hb), hput,
          List.append_assoc]
        rfl
  exact hfold empty h

end Bindings

theorem firstMismatch?_eq_none_iff {expected actual : List Ty}
    (h : expected.length = actual.length) (position : Nat) :
    firstMismatch? position expected actual = none ↔ Ty.allEquivalent expected actual = true := by
  induction expected generalizing actual position with
  | nil =>
      obtain rfl := List.eq_nil_of_length_eq_zero h.symm
      simp [firstMismatch?, Ty.allEquivalent]
  | cons want expected ih =>
      cases actual with
      | nil => cases h
      | cons got actual =>
          rw [firstMismatch?, Ty.allEquivalent]
          split
          · rename_i hfirst
            rw [ih (Nat.succ.inj h), hfirst, Bool.true_and]
          · rename_i hfirst
            simp [hfirst]

theorem Signature.fault?_eq_none_iff {expected actual : Signature Ty}
    (hparams : expected.params.length = actual.params.length) :
    expected.fault? actual = none ↔
      expected.generics.length = actual.generics.length ∧
        Ty.allEquivalent expected.params actual.params = true ∧
          expected.result.equivalent actual.result = true := by
  rw [fault?, ← firstMismatch?_eq_none_iff hparams 1, if_neg (not_not.mpr hparams)]
  split
  · rename_i hgenerics
    simp [hgenerics]
  · rename_i hgenerics
    cases firstMismatch? 1 expected.params actual.params with
    | some fault => simp
    | none => simp [not_not.mp hgenerics]

namespace FunctionDef

-- Whether a method of an interface may be repeated as it is written in a block: it has none of
-- the generics of the block itself, and its types read alike in both places.
def isRepeatable (early env : Environment) (outer : List String) (target : Ty)
    (method : FunctionDef) : Bool :=
  let r : Repetition := ⟨early, env, outer, TypeParam.names method.generics, target⟩
  (TypeParam.names method.generics).all (fun name => !outer.contains name) &&
    method.params.all (fun param => param.type.all (r.keeps false)) &&
      method.result.all (r.keeps false)

-- A parameter `self` without a type is the target in both places.
theorem keepsParam_eq {r : Repetition} (htypes : r.early.HasTypesOf r.env) (param : ParamDef) :
    param.type.all (r.keeps false) =
      ((Scope.resolveParam ⟨r.early, r.inner, .param "Self"⟩ param).instantiate
        (Ty.selfIs r.target)).equivalent
          (Scope.resolveParam ⟨r.env, r.outer ++ r.inner, r.target⟩ param) := by
  cases htype : param.type with
  | some type =>
      simp only [Scope.resolveParam, htype]
      exact Repetition.keeps_eq htypes false type
  | none =>
      simp only [Scope.resolveParam, htype]
      split
      · rw [Ty.instantiate_self, Ty.equivalent_refl]
        rfl
      · rw [Ty.instantiate, Ty.equivalent]
        rfl

variable {early env : Environment} {outer : List String} {target : Ty} {method : FunctionDef}

-- What a block is told of a method that it repeats. Generics that the block has as well are not
-- counted as generics of the method.
def repeatedFault? (early env : Environment) (outer : List String) (target : Ty)
    (method : FunctionDef) : Option SignatureFault :=
  ((Scope.signature { env := early } method).substitute (Ty.selfIs target)).fault?
    { Scope.signature ⟨env, outer, target⟩ method with
      generics := (Scope.signature ⟨env, outer, target⟩ method).generics.filter fun generic =>
        !outer.contains generic.name }

-- The condition is exact.
theorem repeatedFault?_eq_none_iff (htypes : early.HasTypesOf env) :
    method.repeatedFault? early env outer target = none ↔
      method.isRepeatable early env outer target = true := by
  have hsubstitute : (Scope.signature { env := early } method).substitute (Ty.selfIs target) =
      Ty.instantiateSignature (Ty.selfIs target) (Scope.signature { env := early } method) := rfl
  rw [repeatedFault?, hsubstitute,
    Signature.fault?_eq_none_iff (by simp [Scope.signature, Ty.instantiateSignature]),
    isRepeatable, Bool.and_eq_true, Bool.and_eq_true, and_assoc]
  refine and_congr ?_ (and_congr ?_ ?_)
  · simp only [Scope.signature, Ty.instantiateSignature, Scope.resolveParams]
    rw [Ty.instantiateParams_eq, List.length_map, List.length_map, List.filter_map, List.length_map,
      eq_comm, List.length_filter_eq_length_iff]
    simp [TypeParam.names]
  · simp only [Scope.signature, Ty.instantiateSignature, Ty.instantiateAll_eq, List.map_map]
    rw [Ty.allEquivalent_map_iff, List.all_eq_true]
    refine forall₂_congr fun param _ => ?_
    rw [keepsParam_eq htypes]
    rfl
  · simp only [Scope.signature, Ty.instantiateSignature]
    cases hwritten : method.result with
    | none =>
        rw [Option.map_none, Option.getD_none, Ty.instantiate, Ty.equivalent]
        simp
    | some type =>
        rw [Option.all_some, Repetition.keeps_eq htypes]
        rfl

end FunctionDef

namespace ImplDef

variable {env early : Environment} {block : ImplDef} {face : InterfaceDef}

-- Methods of distinct names are all found.
theorem get?_methodTable {scope : Scope} {methods : List FunctionDef}
    (hnames : (methods.map FunctionDef.name).Nodup) {method : FunctionDef}
    (hmethod : method ∈ methods) :
    (methodTable scope methods).get? method.name = some (scope.signature method) := by
  have hfold (table : Bindings (Signature Ty)) :
      (methods.foldl (fun table method => table.insertIfNew method.name (scope.signature method))
        table).get? method.name =
        (table.get? method.name).or
          ((methods.find? fun other => other.name = method.name).map scope.signature) := by
    clear hnames hmethod
    induction methods generalizing table with
    | nil => simp
    | cons first rest ih =>
        rw [List.foldl_cons, ih, Bindings.get?_insertIfNew, List.find?_cons]
        by_cases heq : first.name = method.name
        · cases table.get? method.name <;> simp [heq]
        · simp [heq]
  have hfind : methods.find? (fun other => other.name = method.name) = some method := by
    clear hfold
    induction methods with
    | nil => cases hmethod
    | cons first rest ih =>
        obtain ⟨hfirst, hrest⟩ := List.nodup_cons.mp hnames
        rcases List.mem_cons.mp hmethod with rfl | hmem
        · simp
        · have hne : first.name ≠ method.name := fun heq =>
            hfirst (heq ▸ List.mem_map_of_mem hmem)
          simpa [hne] using ih hrest hmem
  have htable := hfold ∅
  rw [hfind] at htable
  exact htable

-- Without generics and a pattern of its own, an interface leaves only `Self` open.
theorem interfaceSubstitution_build (hgenerics : face.generics = [])
    (hpattern : face.selfPattern = none) (inferred : InferredGenerics) :
    (block.build env (face.elaborate early) inferred).interfaceSubstitution env =
      Ty.selfIs (block.build env (face.elaborate early) inferred).target := by
  have hplaceholders (env : Environment) :
      (face.elaborate early).constructorPlaceholders env = [] := by
    rw [InterfaceDecl.constructorPlaceholders, InterfaceDef.elaborate, hpattern]
  have hinterface : (block.build env (face.elaborate early) inferred).interface =
      face.elaborate early := rfl
  have hnone : (face.elaborate early).generics = [] := by
    simp [InterfaceDef.elaborate, hgenerics, Scope.resolveParams]
  rw [Implementation.interfaceSubstitution, hinterface, hnone, Substitution.bindConstructors,
    hplaceholders]
  simp only [List.zipIdx_nil, List.map_nil, List.foldl_nil, ite_self]
  rfl

-- What a block has for `Self`.
def selfType (block : ImplDef) (env : Environment) : Ty :=
  Scope.resolve { env := env, generics := block.genericNames env } block.target

theorem methods_elaborate (hgenerics : face.generics = []) (hpattern : face.selfPattern = none)
    (hnames : (face.methods.map FunctionDef.name).Nodup) :
    (face.elaborate early).methods.entries = face.methods.map fun method =>
      (method.name, ⟨Scope.signature { env := early } method, method.hasBody⟩) := by
  have hplaceholders : face.shell.constructorPlaceholders early = [] := by
    rw [InterfaceDecl.constructorPlaceholders, InterfaceDef.shell, hpattern]
  simp only [InterfaceDef.elaborate, hgenerics, hplaceholders]
  refine Bindings.entries_ofList ?_
  rw [List.map_map]
  exact hnames

-- Whether a block may have a method as an interface has it.
def mayRepeat (block : ImplDef) (early env : Environment) (method : FunctionDef) : Bool :=
  method.isRepeatable early env (block.genericNames env) (block.selfType env)

-- Of the methods that a block repeats, it reports those that read differently there.
theorem methodProblems_repeated (hgenerics : face.generics = [])
    (hpattern : face.selfPattern = none) (hnames : (face.methods.map FunctionDef.name).Nodup)
    (hmethods : block.methods = face.methods) :
    (block.build env (face.elaborate early) (block.inferred env)).methodProblems env
        (block.genericNames env) =
      face.methods.filterMap fun method =>
        (method.repeatedFault? early env (block.genericNames env) (block.selfType env)).map
          (.methodMismatch
            (block.build env (face.elaborate early) (block.inferred env)).ownerLabel
            method.name) := by
  have hinterface : (block.build env (face.elaborate early) (block.inferred env)).interface =
      face.elaborate early := rfl
  simp only [Implementation.methodProblems, hinterface,
    methods_elaborate hgenerics hpattern hnames, List.filterMap_map,
    interfaceSubstitution_build hgenerics hpattern]
  refine List.filterMap_congr fun method hmethod => ?_
  have htable :
      (block.build env (face.elaborate early) (block.inferred env)).methods.get? method.name =
        some (Scope.signature ⟨env, block.genericNames env, block.selfType env⟩ method) := by
    rw [← hmethods] at hnames hmethod
    exact get?_methodTable hnames hmethod
  simp only [Function.comp_apply, Implementation.methodProblem?, htable]
  rfl

theorem mayRepeat_of_mem (htypes : early.HasTypesOf env) (hgenerics : face.generics = [])
    (hpattern : face.selfPattern = none) (hnames : (face.methods.map FunctionDef.name).Nodup)
    (hmethods : block.methods = face.methods) {problem : Problem}
    (h : problem ∈ (block.build env (face.elaborate early) (block.inferred env)).methodProblems
      env (block.genericNames env)) :
    ∃ method ∈ face.methods, block.mayRepeat early env method = false ∧
      ∃ owner fault, problem = .methodMismatch owner method.name fault := by
  rw [methodProblems_repeated hgenerics hpattern hnames hmethods] at h
  obtain ⟨method, hmethod, hproblem⟩ := List.mem_filterMap.mp h
  obtain ⟨fault, hfault, rfl⟩ := Option.map_eq_some_iff.mp hproblem
  refine ⟨method, hmethod, ?_, _, fault, rfl⟩
  rw [← Bool.not_eq_true, mayRepeat, ← FunctionDef.repeatedFault?_eq_none_iff htypes, hfault]
  exact Option.some_ne_none fault

theorem mem_of_mayRepeat (htypes : early.HasTypesOf env) (hgenerics : face.generics = [])
    (hpattern : face.selfPattern = none) (hnames : (face.methods.map FunctionDef.name).Nodup)
    (hmethods : block.methods = face.methods) {method : FunctionDef}
    (hmethod : method ∈ face.methods) (h : block.mayRepeat early env method = false) :
    ∃ fault, .methodMismatch
        (block.build env (face.elaborate early) (block.inferred env)).ownerLabel method.name fault ∈
      (block.build env (face.elaborate early) (block.inferred env)).methodProblems env
        (block.genericNames env) := by
  rw [← Bool.not_eq_true, mayRepeat, ← FunctionDef.repeatedFault?_eq_none_iff htypes] at h
  obtain ⟨fault, hfault⟩ := Option.ne_none_iff_exists'.mp h
  refine ⟨fault, ?_⟩
  rw [methodProblems_repeated hgenerics hpattern hnames hmethods]
  exact List.mem_filterMap.mpr ⟨method, hmethod, by rw [hfault]; rfl⟩

-- A block that is used reports all that is wrong with its methods.
theorem mem_problems_of_method {impl : Implementation}
    (himpl : (block.elaborate env).impl = some impl) {problem : Problem}
    (h : problem ∈ impl.methodProblems env (block.genericNames env)) :
    problem ∈ (block.elaborate env).problems := by
  obtain ⟨interface, hinterface, rfl, hallowed⟩ := elaborate_impl himpl
  rw [genericNames, inferred] at hallowed
  rw [elaborate, hinterface]
  simp only [hallowed]
  exact List.mem_append_right _ h

end ImplDef

namespace Collection

variable {finder : ComponentFinder} {program : Program}

theorem hasTypesOf_typed (hdistinct : program.Distinct) :
    (typed finder program).env.HasTypesOf (called finder program).env := by
  intro name
  by_cases hname : name ∈ program.typeNames
  · rw [lookup?_called hdistinct hname]
    have htypes : (typed finder program).env.IsTypes := isTypes_typed hdistinct
    cases hdecl : (typed finder program).env.lookup? name with
    | none => rfl
    | some decl =>
        cases decl with
        | function type => cases htypes.kind name _ hdecl
        | _ => rfl
  · rw [lookup?_typed_other hdistinct hname]
    rcases lookup?_called_other hdistinct hname with hnone | ⟨type, htype⟩
    · rw [hnone]
      rfl
    · rw [htype]
      rfl

theorem lookup?_called_interface (hdistinct : program.Distinct) {face : InterfaceDef}
    (hface : Item.interface face ∈ program) :
    (called finder program).env.lookup? face.name =
      some (.interface (face.elaborate (typed finder program).env)) := by
  have hname : face.name ∈ program.typeNames := List.mem_filterMap.mpr ⟨_, hface, rfl⟩
  rw [lookup?_called hdistinct hname, lookup?_typed hdistinct,
    (Program.typeItem?_eq_some_iff hdistinct).mpr ⟨hface, rfl⟩, Option.bind_some,
    Item.declaration?_congr fun name => (face?_typed hdistinct name).symm]
  rfl

end Collection

namespace Copied

open Catalogue

def method (generics : List String) (type : TypeExpr) : FunctionDef :=
  ⟨"f", generics.map fun name => ⟨name, []⟩, [⟨"x", some type⟩], none, [], false, default⟩

def face (methods : List FunctionDef) : InterfaceDef := ⟨"Show", [], none, methods, [], default⟩

def block (generics : List String) (target : TypeExpr) (methods : List FunctionDef) : ImplDef :=
  ⟨none, "Show", [], generics.map fun name => ⟨name, []⟩, target, [], methods, default⟩

-- An interface of one method that a block repeats.
def repeated (generics : List String) (target : TypeExpr) (method : FunctionDef) : Program :=
  [.interface (face [method]), .impl (block generics target [method])]

-- How many blocks are used, and what is reported.
def outcome (program : Program) : Nat × List Problem :=
  let c := Collection.ofProgram depthFirst program false
  (c.registry.size, c.diagnostics.map Diagnostic.problem)

def point : Item := .struct ⟨"Point", [], [], [], default⟩

def applied (name : String) (arg : TypeExpr) : TypeExpr := .generic (named name) [arg] default

-- Methods with generics of their own, with `Self` and with a name that only the block knows.
def methods : List FunctionDef :=
  [⟨"show", [], [⟨"self", none⟩, ⟨"by", some (named "T")⟩],
      some (.result (named "Text") default), [], false, default⟩,
    ⟨"each", [⟨"M", []⟩], [⟨"x", some (applied "M" (named "Point"))⟩,
      ⟨"y", some (applied "Array" (named "Self"))⟩], none, [], false, default⟩]

def program : Program :=
  [point, aliasOf "Text" (named "String"), .interface (face methods),
    .impl (block [] (arrayOf "T") methods)]

end Copied

open Catalogue Copied in
-- Generics called `Self` and `_` hide nothing, and an alias of a constructor may be applied to a
-- name that only the block knows.
example :
    outcome (repeated ["Self", "_"] (arrayOf "T") (method [] (named "Self"))) = (1, []) ∧
      outcome (aliasOf "List" (named "Array") ::
        repeated [] (arrayOf "T") (method [] (applied "List" (named "T")))) = (1, []) := by
  decide +kernel

end Conformance
