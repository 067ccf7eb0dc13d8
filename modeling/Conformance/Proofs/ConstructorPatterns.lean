import Conformance.Proofs.PatternPlaceholders

namespace Conformance

-- A pattern of a constructor and wildcards, such as `Array _`, asks for nothing but the
-- constructor. It accepts the constructor by its name alone and with arguments, as long as there
-- are no more of these than wildcards, or those beyond are left open themselves.

-- A struct, union or interface with parameters.
def Declaration.isConstructor : Declaration → Bool
  | .struct decl => !decl.generics.isEmpty
  | .union decl => !decl.generics.isEmpty
  | .interface decl => !decl.generics.isEmpty
  | .alias _ => false
  | .function _ => false

namespace TypeExpr

-- A constructor alone, or with arguments of which all after the first few are left open.
def isFormOf (name : String) (count : Nat) : TypeExpr → Bool
  | .simple other _ => other = name
  | .generic base args _ => base.simpleName? = some name && (args.drop count).all isWildcard
  | _ => false

theorem isFormOf_iff {name : String} {count : Nat} {e : TypeExpr} :
    e.isFormOf name count = true ↔
      (∃ span, e = .simple name span) ∨
        ∃ args span span', e = .generic (.simple name span) args span' ∧
          ∀ arg ∈ args.drop count, arg.isWildcard = true := by
  cases e with
  | simple other span => simp [isFormOf]
  | generic base args span =>
      cases base with
      | simple other span' =>
          simp only [isFormOf, simpleName?, Option.some.injEq, Bool.and_eq_true, decide_eq_true_eq,
            List.all_eq_true, reduceCtorEq, exists_false, false_or, generic.injEq, simple.injEq]
          constructor
          · rintro ⟨rfl, hopen⟩
            exact ⟨args, span', span, ⟨⟨rfl, rfl⟩, rfl, rfl⟩, hopen⟩
          · rintro ⟨_, _, _, ⟨⟨rfl, -⟩, rfl, -⟩, hopen⟩
            exact ⟨rfl, hopen⟩
      | _ => simp [isFormOf, simpleName?]
  | _ => simp [isFormOf]

-- Wildcards of a pattern that have no counterpart do no harm, so only the excess of the target
-- counts.
theorem excessIsOpen_of_wildcards {holes : List TypeExpr}
    (hopen : ∀ hole ∈ holes, hole.isWildcard = true) (targets : List TypeExpr) :
    excessIsOpen holes targets = (targets.drop holes.length).all isWildcard := by
  have hrest : (holes.drop targets.length).all isWildcard = true :=
    List.all_eq_true.mpr fun hole hmem => hopen hole (List.mem_of_mem_drop hmem)
  rw [excessIsOpen, hrest, Bool.true_and]

end TypeExpr

namespace PatternScope

-- A name that means the constructor of that name in a pattern, built in or declared.
structure KnowsConstructor (scope : PatternScope) (name : String) : Prop where
  known : (Builtin.ofName? name).isSome = true ∨
    ∃ decl, scope.env.lookup? name = some decl ∧ decl.isConstructor = true
  not_generic : name ∉ scope.generics
  not_scalar : Scalar.ofName? name = none
  not_wildcard : name ≠ "_"

variable {scope : PatternScope} {name : String}

theorem KnowsConstructor.isPlaceholder (h : scope.KnowsConstructor name) :
    scope.isPlaceholder name = false := by
  rw [PatternScope.isPlaceholder, Environment.isPlaceholder, if_neg h.not_generic, h.not_scalar]
  split
  · rfl
  rcases h.known with hbuiltin | ⟨decl, hlookup, hdecl⟩
  · simp [hbuiltin]
  · split
    · rfl
    · rw [hlookup]
      cases decl with
      | «alias» _ => cases hdecl
      | function _ => cases hdecl
      | _ => rfl

theorem KnowsConstructor.isConstructor (h : scope.KnowsConstructor name) :
    scope.isConstructor name = true := by
  suffices htakes : scope.env.takesArguments name = true by
    rw [PatternScope.isConstructor, htakes, Bool.or_true]
  rw [Environment.takesArguments, Environment.constructorArity?]
  cases hbuiltin : Builtin.ofName? name with
  | some builtin => cases builtin <;> rfl
  | none =>
      obtain ⟨decl, hlookup, hdecl⟩ := h.known.resolve_left (by simp [hbuiltin])
      simp only [h.not_scalar, hlookup]
      cases decl with
      | «alias» _ => cases hdecl
      | function _ => cases hdecl
      | _ => simpa [Declaration.isConstructor, Declaration.arity, List.length_pos_iff] using hdecl

theorem fits_wildcard {hole : TypeExpr} (h : hole.isWildcard = true) (target : TypeExpr)
    (bound : Placeholders) : scope.fits hole target bound = (true, bound) := by
  cases hole with
  | wildcard _ => rfl
  | simple name _ =>
      have hname : name = "_" := by simpa [TypeExpr.isWildcard] using h
      rw [fits, if_pos hname]
  | _ => cases h

theorem fitsAll_wildcards {holes : List TypeExpr} (hopen : ∀ hole ∈ holes, hole.isWildcard = true)
    (targets : List TypeExpr) (bound : Placeholders) :
    scope.fitsAll holes targets bound = (true, bound) := by
  induction holes generalizing targets with
  | nil => cases targets <;> rfl
  | cons hole holes ih =>
      obtain ⟨hfirst, hrest⟩ := List.forall_mem_cons.mp hopen
      cases targets with
      | nil => rfl
      | cons target targets => rw [fitsAll_cons, fits_wildcard hfirst, if_pos rfl, ih hrest]

theorem KnowsConstructor.fits_name (h : scope.KnowsConstructor name) (span : Span)
    (target : TypeExpr) (bound : Placeholders) :
    scope.fits (.simple name span) target bound =
      (decide (target.simpleName? = some name), bound) := by
  rw [fits, if_neg h.not_wildcard, h.isPlaceholder]
  rfl

-- The walk through such a pattern finds the form of the target and binds nothing.
theorem KnowsConstructor.fits_open (h : scope.KnowsConstructor name) {holes : List TypeExpr}
    (hsome : holes ≠ []) (hopen : ∀ hole ∈ holes, hole.isWildcard = true) (span span' : Span)
    (target : TypeExpr) (bound : Placeholders) :
    scope.fits (.generic (.simple name span) holes span') target bound =
      (target.isFormOf name holes.length, bound) := by
  have hbare : holes.any TypeExpr.isWildcard = true := by
    obtain ⟨hole, hmem⟩ := List.exists_mem_of_ne_nil holes hsome
    exact List.any_eq_true.mpr ⟨hole, hmem, hopen hole hmem⟩
  cases target with
  | simple other _ =>
      rw [fits]
      simp only [hbare, Bool.true_and, h.fits_name, TypeExpr.simpleName?, TypeExpr.isFormOf,
        Option.some.injEq]
      -- Another name may be no constructor, but then it does not fit either.
      by_cases hother : other = name
      · simp [hother, h.isConstructor]
      · simp [hother]
  | generic base args _ =>
      rw [fits]
      have hname : (TypeExpr.simple name span).simpleName? = some name := rfl
      simp only [hname, h.isPlaceholder, Bool.and_false, Bool.false_eq_true, if_false, h.fits_name,
        TypeExpr.excessIsOpen_of_wildcards hopen, fitsAll_wildcards hopen, TypeExpr.isFormOf]
      split
      · rename_i hfits
        rw [hfits]
      · rename_i hfits
        rw [Bool.not_eq_true] at hfits
        rw [hfits]
  | _ => rfl

-- A pattern of a constructor and wildcards accepts that constructor and no other, by its name alone
-- or with arguments that are open where the pattern has no wildcard for them.
theorem open_constructor_accepts_iff (scope : PatternScope) {name : String}
    (hname : scope.KnowsConstructor name) {holes : List TypeExpr} (hsome : holes ≠ [])
    (hopen : ∀ hole ∈ holes, hole.isWildcard = true) (span span' : Span) (target : TypeExpr) :
    scope.accepts (.generic (.simple name span) holes span') target = true ↔
      (∃ place, target = .simple name place) ∨
        ∃ args place place', target = .generic (.simple name place) args place' ∧
          ∀ arg ∈ args.drop holes.length, arg.isWildcard = true := by
  rw [accepts, hname.fits_open hsome hopen]
  exact TypeExpr.isFormOf_iff

end PatternScope

namespace Containers

-- A table of keys and values is declared.
def tables : PatternScope where
  env := Environment.define ∅ "Table" (.struct ⟨"Table", [⟨"K", []⟩, ⟨"V", []⟩], ∅, [], none⟩)
  generics := ["K"]

def tableOf (args : List TypeExpr) : TypeExpr := .generic (name "Table") args default

-- The two spellings of the wildcard.
def holes : List TypeExpr := [.wildcard default, name "_"]

end Containers

open Containers in
-- A table alone, with some of its arguments, and with an open one too many. A third argument that
-- is written out is refused, and so is an application of a table.
theorem tables_fit_open_pattern :
    tables.KnowsConstructor "Table" ∧
      tables.accepts (tableOf holes) (name "Table") = true ∧
      tables.accepts (tableOf holes) (tableOf [name "i32"]) = true ∧
      tables.accepts (tableOf holes) (tableOf [name "i32", mapOf (name "K") (name "V"), name "_"]) =
        true ∧
      tables.accepts (tableOf holes) (tableOf [name "i32", name "bool", name "K"]) = false ∧
      tables.accepts (tableOf holes) (.generic (tableOf [name "i32"]) [name "bool"] default) =
        false ∧
      tables.accepts (tableOf holes) (mapOf (name "i32") (name "bool")) = false := by
  have htable : tables.KnowsConstructor "Table" :=
    ⟨.inr ⟨_, rfl, rfl⟩, by decide, by decide +kernel, by decide⟩
  have hopen : ∀ hole ∈ holes, hole.isWildcard = true := by decide
  have hsome : holes ≠ [] := by decide
  have haccepts :=
    PatternScope.open_constructor_accepts_iff tables htable hsome hopen default default
  refine ⟨htable, (haccepts _).mpr (.inl ⟨_, rfl⟩), (haccepts _).mpr (.inr ⟨_, _, _, rfl, ?_⟩),
    (haccepts _).mpr (.inr ⟨_, _, _, rfl, ?_⟩), ?_, ?_, ?_⟩
  · decide
  · decide
  · decide +kernel
  · decide +kernel
  · decide +kernel

end Conformance
