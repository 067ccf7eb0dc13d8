import Conformance.SelfPattern

namespace Conformance

-- A self pattern is matched against a target by one walk that binds placeholders on the way. What
-- it accepts are the targets that come from the pattern by putting expressions in the places of
-- its placeholders; but the walk only goes into applications, so that placeholders inside nullable
-- types, results, functions and unions keep their names.

namespace TypeExpr

mutual
-- An expression without its places in the source text.
def unspanned : TypeExpr → TypeExpr
  | .simple name _ => .simple name default
  | .generic base args _ => .generic base.unspanned (allUnspanned args) default
  | .nullable inner _ => .nullable inner.unspanned default
  | .result inner _ => .result inner.unspanned default
  | .function params returns _ => .function (allUnspanned params) returns.unspanned default
  | .union members _ => .union (allUnspanned members) default
  | .wildcard _ => .wildcard default
def allUnspanned : List TypeExpr → List TypeExpr
  | [] => []
  | e :: es => e.unspanned :: allUnspanned es
end

@[simp] theorem allUnspanned_eq (es : List TypeExpr) : allUnspanned es = es.map unspanned := by
  induction es with
  | nil => rfl
  | cons e es ih => simp [allUnspanned, ih]

mutual
theorem equivalent_iff_unspanned : (a b : TypeExpr) →
    (equivalent a b = true ↔ a.unspanned = b.unspanned)
  | .simple _ _, b => by cases b <;> simp [equivalent, unspanned]
  | .generic x xs _, b => by
      cases b <;> simp [equivalent, unspanned, equivalent_iff_unspanned x,
        allEquivalent_iff_unspanned xs]
  | .nullable x _, b => by cases b <;> simp [equivalent, unspanned, equivalent_iff_unspanned x]
  | .result x _, b => by cases b <;> simp [equivalent, unspanned, equivalent_iff_unspanned x]
  | .function xs x _, b => by
      cases b <;> simp [equivalent, unspanned, equivalent_iff_unspanned x,
        allEquivalent_iff_unspanned xs]
  | .union xs _, b => by cases b <;> simp [equivalent, unspanned, allEquivalent_iff_unspanned xs]
  | .wildcard _, b => by cases b <;> simp [equivalent, unspanned]
theorem allEquivalent_iff_unspanned : (xs ys : List TypeExpr) →
    (allEquivalent xs ys = true ↔ xs.map unspanned = ys.map unspanned)
  | [], ys => by cases ys <;> simp [allEquivalent]
  | x :: xs, ys => by
      cases ys <;> simp [allEquivalent, equivalent_iff_unspanned x, allEquivalent_iff_unspanned xs]
end

mutual
-- Neither spelling of the wildcard occurs.
def isWildcardFree : TypeExpr → Bool
  | .simple name _ => name ≠ "_"
  | .generic base args _ => base.isWildcardFree && allWildcardFree args
  | .nullable inner _ => inner.isWildcardFree
  | .result inner _ => inner.isWildcardFree
  | .function params returns _ => allWildcardFree params && returns.isWildcardFree
  | .union members _ => allWildcardFree members
  | .wildcard _ => false
def allWildcardFree : List TypeExpr → Bool
  | [] => true
  | e :: es => e.isWildcardFree && allWildcardFree es
end

@[simp] theorem allWildcardFree_iff (es : List TypeExpr) :
    allWildcardFree es = true ↔ ∀ e ∈ es, e.isWildcardFree = true := by
  induction es with
  | nil => simp [allWildcardFree]
  | cons e es ih => simp [allWildcardFree, ih]

theorem isWildcard_of_isWildcardFree {e : TypeExpr} (h : e.isWildcardFree = true) :
    e.isWildcard = false := by
  cases e with
  | simple name => simpa [isWildcardFree, isWildcard] using h
  | wildcard => cases h
  | _ => rfl

theorem any_isWildcard_of_allWildcardFree {es : List TypeExpr} (h : allWildcardFree es = true) :
    es.any isWildcard = false := by
  rw [List.any_eq_false]
  intro e he
  simp [isWildcard_of_isWildcardFree ((allWildcardFree_iff es).mp h e he)]

-- Without wildcards two argument lists are of one length.
theorem excessIsOpen_iff {args targets : List TypeExpr} (hargs : allWildcardFree args = true)
    (htargets : allWildcardFree targets = true) :
    excessIsOpen args targets = true ↔ args.length = targets.length := by
  have hall {es : List TypeExpr} (h : allWildcardFree es = true) (count : Nat) :
      (es.drop count).all isWildcard = true ↔ es.length ≤ count := by
    rw [← List.drop_eq_nil_iff]
    cases hdrop : es.drop count with
    | nil => simp
    | cons e rest =>
        have hmem : e ∈ es := List.mem_of_mem_drop (hdrop ▸ List.mem_cons_self)
        simp [isWildcard_of_isWildcardFree ((allWildcardFree_iff es).mp h e hmem)]
  rw [excessIsOpen, Bool.and_eq_true, hall hargs, hall htargets]
  omega

mutual
-- The names inside the parts of a pattern that are compared as they are written.
def sealedNames : TypeExpr → List String
  | .simple _ _ => []
  | .generic base args _ => base.sealedNames ++ allSealedNames args
  | e => e.typeNames
def allSealedNames : List TypeExpr → List String
  | [] => []
  | e :: es => e.sealedNames ++ allSealedNames es
end

end TypeExpr

namespace PatternScope

mutual
-- A pattern with expressions in the places of its placeholders.
def fill (scope : PatternScope) (assigned : String → TypeExpr) : TypeExpr → TypeExpr
  | .simple name span => if scope.isPlaceholder name then assigned name else .simple name span
  | .generic base args span => .generic (fill scope assigned base) (fillAll scope assigned args) span
  | .nullable inner span => .nullable (fill scope assigned inner) span
  | .result inner span => .result (fill scope assigned inner) span
  | .function params returns span =>
      .function (fillAll scope assigned params) (fill scope assigned returns) span
  | .union members span => .union (fillAll scope assigned members) span
  | .wildcard span => .wildcard span
def fillAll (scope : PatternScope) (assigned : String → TypeExpr) : List TypeExpr → List TypeExpr
  | [] => []
  | e :: es => fill scope assigned e :: fillAll scope assigned es
end

mutual
-- The same where only placeholders on the way through applications are replaced.
def fillOpen (scope : PatternScope) (assigned : String → TypeExpr) : TypeExpr → TypeExpr
  | .simple name span => if scope.isPlaceholder name then assigned name else .simple name span
  | .generic base args span =>
      .generic (fillOpen scope assigned base) (fillOpenAll scope assigned args) span
  | e => e
def fillOpenAll (scope : PatternScope) (assigned : String → TypeExpr) :
    List TypeExpr → List TypeExpr
  | [] => []
  | e :: es => fillOpen scope assigned e :: fillOpenAll scope assigned es
end

variable {scope : PatternScope} {assigned : String → TypeExpr}

theorem length_fillOpenAll (es : List TypeExpr) :
    (scope.fillOpenAll assigned es).length = es.length := by
  induction es with
  | nil => rfl
  | cons e es ih => rw [fillOpenAll, List.length_cons, List.length_cons, ih]

section Walk

-- An assignment that gives bound placeholders what they are bound to.
def Respects (assigned : String → TypeExpr) (bound : Placeholders) : Prop :=
  ∀ name e, bound.get? name = some e → (assigned name).unspanned = e.unspanned

theorem bind_iff {name : String} {target : TypeExpr} {bound : Placeholders} :
    (bind name target bound).1 = true ∧ Respects assigned (bind name target bound).2 ↔
      Respects assigned bound ∧ (assigned name).unspanned = target.unspanned := by
  rw [bind]
  cases h : bound.get? name with
  | some existing =>
      simp only [TypeExpr.equivalent_iff_unspanned]
      constructor
      · rintro ⟨hsame, hrespects⟩
        exact ⟨hrespects, (hrespects name existing h).trans hsame⟩
      · rintro ⟨hrespects, hname⟩
        exact ⟨(hrespects name existing h).symm.trans hname, hrespects⟩
  | none =>
      simp only [true_and]
      constructor
      · intro hrespects
        refine ⟨fun other e hother => hrespects other e ?_, hrespects name target ?_⟩
        · have hne : name ≠ other := by
            rintro rfl
            rw [h] at hother
            cases hother
          rw [Bindings.get?_insert, if_neg hne, hother]
        · rw [Bindings.get?_insert, if_pos rfl]
      · rintro ⟨hrespects, hname⟩ other e hother
        rw [Bindings.get?_insert] at hother
        split at hother
        · rename_i heq
          subst heq
          obtain rfl := Option.some.inj hother
          exact hname
        · exact hrespects other e hother

-- Without wildcards an application fits base by base and argument by argument.
theorem fits_generic {base targetBase : TypeExpr} {args targetArgs : List TypeExpr}
    (hargs : TypeExpr.allWildcardFree args = true) (span span' : Span) (bound : Placeholders) :
    scope.fits (.generic base args span) (.generic targetBase targetArgs span') bound =
      if (scope.fits base targetBase bound).1 && TypeExpr.excessIsOpen args targetArgs then
        scope.fitsAll args targetArgs (scope.fits base targetBase bound).2
      else (false, (scope.fits base targetBase bound).2) := by
  rw [fits]
  simp only [TypeExpr.any_isWildcard_of_allWildcardFree hargs, Bool.false_and]
  cases base.simpleName? <;> rfl

theorem fitsAll_cons (pattern target : TypeExpr) (patterns targets : List TypeExpr)
    (bound : Placeholders) :
    scope.fitsAll (pattern :: patterns) (target :: targets) bound =
      if (scope.fits pattern target bound).1 then
        scope.fitsAll patterns targets (scope.fits pattern target bound).2
      else (false, (scope.fits pattern target bound).2) := by
  rw [fitsAll]
  obtain ⟨fits, bound'⟩ := scope.fits pattern target bound
  cases fits <;> rfl

-- Two steps of the walk, the second of which is taken if the first succeeds.
theorem next_iff {first second : Bool × Placeholders} {bound : Placeholders} {P Q : Prop}
    (hfirst : first.1 = true ∧ Respects assigned first.2 ↔ Respects assigned bound ∧ P)
    (hsecond : second.1 = true ∧ Respects assigned second.2 ↔ Respects assigned first.2 ∧ Q) :
    ((if first.1 then second else (false, first.2)).1 = true ∧
        Respects assigned (if first.1 then second else (false, first.2)).2 ↔
      Respects assigned bound ∧ P ∧ Q) := by
  by_cases h : first.1 = true
  · rw [if_pos h, hsecond, ← and_assoc, ← hfirst]
    simp [h]
  · rw [if_neg h, ← and_assoc, ← hfirst]
    simp [h]

-- The walk succeeds with bindings that an assignment respects exactly if the assignment turns the
-- pattern into the target.
mutual
theorem fits_iff : (pattern : TypeExpr) → pattern.isWildcardFree = true → {target : TypeExpr} →
    target.isWildcardFree = true → {bound : Placeholders} →
    ((scope.fits pattern target bound).1 = true ∧
        Respects assigned (scope.fits pattern target bound).2 ↔
      Respects assigned bound ∧
        (scope.fillOpen assigned pattern).unspanned = target.unspanned)
  | .wildcard _, h, _, _, _ => by cases h
  | .simple name _, h, target, _, bound => by
      have hname : name ≠ "_" := by simpa [TypeExpr.isWildcardFree] using h
      rw [fits, fillOpen, if_neg hname]
      split
      · exact bind_iff
      · cases target <;> simp [TypeExpr.simpleName?, TypeExpr.unspanned, and_comm, eq_comm]
  | .generic base args span, h, target, htarget, bound => by
      rw [TypeExpr.isWildcardFree, Bool.and_eq_true] at h
      cases target with
      | generic targetBase targetArgs span' =>
          rw [TypeExpr.isWildcardFree, Bool.and_eq_true] at htarget
          have hpair : (scope.fillOpen assigned (.generic base args span)).unspanned =
              (TypeExpr.generic targetBase targetArgs span').unspanned ↔
              (scope.fillOpen assigned base).unspanned = targetBase.unspanned ∧
                (scope.fillOpenAll assigned args).map TypeExpr.unspanned =
                  targetArgs.map TypeExpr.unspanned := by
            simp [fillOpen, TypeExpr.unspanned]
          rw [fits_generic h.2, hpair]
          by_cases hlength : args.length = targetArgs.length
          · rw [(TypeExpr.excessIsOpen_iff h.2 htarget.2).mpr hlength, Bool.and_true]
            exact next_iff (fits_iff base h.1 htarget.1) (fitsAll_iff args h.2 htarget.2 hlength)
          · have hexcess : TypeExpr.excessIsOpen args targetArgs = false := by
              rw [← Bool.not_eq_true, TypeExpr.excessIsOpen_iff h.2 htarget.2]
              exact hlength
            rw [hexcess, Bool.and_false]
            constructor
            · rintro ⟨hfalse, -⟩
              cases hfalse
            · rintro ⟨-, -, hargs⟩
              have hcount := congrArg List.length hargs
              rw [List.length_map, List.length_map, length_fillOpenAll] at hcount
              exact absurd hcount hlength
      | simple name span' =>
          rw [fits]
          simp [TypeExpr.any_isWildcard_of_allWildcardFree h.2, fillOpen, TypeExpr.unspanned]
      | _ => simp [fits, fillOpen, TypeExpr.unspanned]
  | .nullable _ _, _, target, _, bound | .result _ _, _, target, _, bound
  | .function _ _ _, _, target, _, bound | .union _ _, _, target, _, bound => by
      simp only [fits, fillOpen, TypeExpr.equivalent_iff_unspanned, and_comm]
theorem fitsAll_iff : (patterns : List TypeExpr) → TypeExpr.allWildcardFree patterns = true →
    {targets : List TypeExpr} → TypeExpr.allWildcardFree targets = true →
    patterns.length = targets.length → {bound : Placeholders} →
    ((scope.fitsAll patterns targets bound).1 = true ∧
        Respects assigned (scope.fitsAll patterns targets bound).2 ↔
      Respects assigned bound ∧
        (scope.fillOpenAll assigned patterns).map TypeExpr.unspanned =
          targets.map TypeExpr.unspanned)
  | [], _, [], _, _, bound => by simp [fitsAll, fillOpenAll]
  | pattern :: patterns, h, target :: targets, htargets, hlength, bound => by
      rw [TypeExpr.allWildcardFree, Bool.and_eq_true] at h htargets
      rw [fitsAll_cons, fillOpenAll, List.map_cons, List.map_cons, List.cons.injEq]
      exact next_iff (fits_iff pattern h.1 htargets.1)
        (fitsAll_iff patterns h.2 htargets.2 (Nat.succ.inj hlength))
end

theorem accepts_iff_exists_fillOpen {pattern target : TypeExpr}
    (hpattern : pattern.isWildcardFree = true) (htarget : target.isWildcardFree = true) :
    scope.accepts pattern target = true ↔
      ∃ assigned, (scope.fillOpen assigned pattern).unspanned = target.unspanned := by
  constructor
  · intro haccepts
    -- What the walk leaves bound is an assignment.
    let assigned (name : String) : TypeExpr :=
      ((scope.fits pattern target ∅).2.get? name).getD default
    have hrespects : Respects assigned (scope.fits pattern target ∅).2 := by
      intro name e hbound
      simp only [assigned, hbound, Option.getD_some]
    exact ⟨assigned, ((fits_iff pattern hpattern htarget).mp ⟨haccepts, hrespects⟩).2⟩
  · rintro ⟨assigned, hfilled⟩
    have hnothing : Respects assigned ∅ := fun name e hbound => by cases hbound
    exact ((fits_iff pattern hpattern htarget).mpr ⟨hnothing, hfilled⟩).1

end Walk

section Sealed

mutual
theorem fill_eq_self : (e : TypeExpr) → (∀ name ∈ e.typeNames, scope.isPlaceholder name = false) →
    scope.fill assigned e = e
  | .simple name _, h => by
      rw [fill, h name (by simp [TypeExpr.typeNames])]
      rfl
  | .generic base args _, h => by
      simp only [TypeExpr.typeNames, List.forall_mem_append] at h
      rw [fill, fill_eq_self base h.1, fillAll_eq_self args h.2]
  | .nullable inner _, h | .result inner _, h => by rw [fill, fill_eq_self inner h]
  | .function params returns _, h => by
      simp only [TypeExpr.typeNames, List.forall_mem_append] at h
      rw [fill, fillAll_eq_self params h.1, fill_eq_self returns h.2]
  | .union members _, h => by rw [fill, fillAll_eq_self members h]
  | .wildcard _, _ => rfl
theorem fillAll_eq_self : (es : List TypeExpr) →
    (∀ name ∈ TypeExpr.allTypeNames es, scope.isPlaceholder name = false) →
    scope.fillAll assigned es = es
  | [], _ => rfl
  | e :: es, h => by
      simp only [TypeExpr.allTypeNames, List.forall_mem_append] at h
      rw [fillAll, fill_eq_self e h.1, fillAll_eq_self es h.2]
end

mutual
-- Where no placeholder is sealed, all of them are replaced.
theorem fillOpen_eq_fill : (e : TypeExpr) →
    (∀ name ∈ e.sealedNames, scope.isPlaceholder name = false) →
    scope.fillOpen assigned e = scope.fill assigned e
  | .simple _ _, _ => rfl
  | .generic base args _, h => by
      simp only [TypeExpr.sealedNames, List.forall_mem_append] at h
      rw [fillOpen, fill, fillOpen_eq_fill base h.1, fillOpenAll_eq_fillAll args h.2]
  | .nullable _ _, h | .result _ _, h | .function _ _ _, h | .union _ _, h | .wildcard _, h =>
      (fill_eq_self _ h).symm
theorem fillOpenAll_eq_fillAll : (es : List TypeExpr) →
    (∀ name ∈ TypeExpr.allSealedNames es, scope.isPlaceholder name = false) →
    scope.fillOpenAll assigned es = scope.fillAll assigned es
  | [], _ => rfl
  | e :: es, h => by
      simp only [TypeExpr.allSealedNames, List.forall_mem_append] at h
      rw [fillOpenAll, fillAll, fillOpen_eq_fill e h.1, fillOpenAll_eq_fillAll es h.2]
end

mutual
theorem isWildcardFree_fill (h : ∀ name, (assigned name).isWildcardFree = true) :
    (e : TypeExpr) → e.isWildcardFree = true → (scope.fill assigned e).isWildcardFree = true
  | .simple name _, he => by
      rw [fill]
      split
      · exact h name
      · exact he
  | .generic base args _, he => by
      rw [TypeExpr.isWildcardFree, Bool.and_eq_true] at he
      rw [fill, TypeExpr.isWildcardFree, Bool.and_eq_true]
      exact ⟨isWildcardFree_fill h base he.1, allWildcardFree_fillAll h args he.2⟩
  | .nullable inner _, he | .result inner _, he => isWildcardFree_fill h inner he
  | .function params returns _, he => by
      rw [TypeExpr.isWildcardFree, Bool.and_eq_true] at he
      rw [fill, TypeExpr.isWildcardFree, Bool.and_eq_true]
      exact ⟨allWildcardFree_fillAll h params he.1, isWildcardFree_fill h returns he.2⟩
  | .union members _, he => allWildcardFree_fillAll h members he
  | .wildcard _, he => he
theorem allWildcardFree_fillAll (h : ∀ name, (assigned name).isWildcardFree = true) :
    (es : List TypeExpr) → TypeExpr.allWildcardFree es = true →
    TypeExpr.allWildcardFree (scope.fillAll assigned es) = true
  | [], _ => rfl
  | e :: es, he => by
      rw [TypeExpr.allWildcardFree, Bool.and_eq_true] at he
      rw [fillAll, TypeExpr.allWildcardFree, Bool.and_eq_true]
      exact ⟨isWildcardFree_fill h e he.1, allWildcardFree_fillAll h es he.2⟩
end

-- An expression that no name stands for by itself.
def marker : TypeExpr := .nullable (.simple "Self" default) default

mutual
theorem typeNames_of_fill_eq : (e : TypeExpr) →
    (scope.fill (fun _ => marker) e).unspanned = e.unspanned →
    ∀ name ∈ e.typeNames, scope.isPlaceholder name = false
  | .simple name _, h => by
      rw [fill] at h
      split at h
      · simp [marker, TypeExpr.unspanned] at h
      · rename_i hplaceholder
        simpa [TypeExpr.typeNames] using hplaceholder
  | .generic base args _, h => by
      simp only [fill, TypeExpr.unspanned, TypeExpr.generic.injEq] at h
      simp only [TypeExpr.typeNames, List.forall_mem_append]
      exact ⟨typeNames_of_fill_eq base h.1, allTypeNames_of_fillAll_eq args h.2.1⟩
  | .nullable inner _, h | .result inner _, h => by
      simp only [fill, TypeExpr.unspanned, TypeExpr.nullable.injEq, TypeExpr.result.injEq] at h
      exact typeNames_of_fill_eq inner h.1
  | .function params returns _, h => by
      simp only [fill, TypeExpr.unspanned, TypeExpr.function.injEq] at h
      simp only [TypeExpr.typeNames, List.forall_mem_append]
      exact ⟨allTypeNames_of_fillAll_eq params h.1, typeNames_of_fill_eq returns h.2.1⟩
  | .union members _, h => by
      simp only [fill, TypeExpr.unspanned, TypeExpr.union.injEq] at h
      exact allTypeNames_of_fillAll_eq members h.1
  | .wildcard _, _ => by simp [TypeExpr.typeNames]
theorem allTypeNames_of_fillAll_eq : (es : List TypeExpr) →
    TypeExpr.allUnspanned (scope.fillAll (fun _ => marker) es) = TypeExpr.allUnspanned es →
    ∀ name ∈ TypeExpr.allTypeNames es, scope.isPlaceholder name = false
  | [], _ => by simp
  | e :: es, h => by
      simp only [fillAll, TypeExpr.allUnspanned, List.cons.injEq] at h
      simp only [TypeExpr.allTypeNames, List.forall_mem_append]
      exact ⟨typeNames_of_fill_eq e h.1, allTypeNames_of_fillAll_eq es h.2⟩
end

mutual
-- Markers in the places of all placeholders cannot come from a pattern in which some are sealed.
theorem sealedNames_of_fillOpen_eq : (e : TypeExpr) →
    (scope.fillOpen assigned e).unspanned = (scope.fill (fun _ => marker) e).unspanned →
    ∀ name ∈ e.sealedNames, scope.isPlaceholder name = false
  | .simple _ _, _ => by simp [TypeExpr.sealedNames]
  | .generic base args _, h => by
      simp only [fillOpen, fill, TypeExpr.unspanned, TypeExpr.generic.injEq] at h
      simp only [TypeExpr.sealedNames, List.forall_mem_append]
      exact ⟨sealedNames_of_fillOpen_eq base h.1, allSealedNames_of_fillOpenAll_eq args h.2.1⟩
  | .nullable _ _, h | .result _ _, h | .function _ _ _, h | .union _ _, h | .wildcard _, h =>
      typeNames_of_fill_eq _ h.symm
theorem allSealedNames_of_fillOpenAll_eq : (es : List TypeExpr) →
    TypeExpr.allUnspanned (scope.fillOpenAll assigned es) =
      TypeExpr.allUnspanned (scope.fillAll (fun _ => marker) es) →
    ∀ name ∈ TypeExpr.allSealedNames es, scope.isPlaceholder name = false
  | [], _ => by simp [TypeExpr.allSealedNames]
  | e :: es, h => by
      simp only [fillOpenAll, fillAll, TypeExpr.allUnspanned, List.cons.injEq] at h
      simp only [TypeExpr.allSealedNames, List.forall_mem_append]
      exact ⟨sealedNames_of_fillOpen_eq e h.1, allSealedNames_of_fillOpenAll_eq es h.2⟩
end

end Sealed

-- A pattern accepts what comes from it by putting expressions in the places of the placeholders
-- that are not sealed. So all its placeholders bind exactly if none of them is sealed.
theorem placeholders_bind_iff_open (scope : PatternScope) {pattern : TypeExpr}
    (hpattern : pattern.isWildcardFree = true) :
    (∀ target, target.isWildcardFree = true → (scope.accepts pattern target = true ↔
      ∃ assigned, (scope.fillOpen assigned pattern).unspanned = target.unspanned)) ∧
    ((∀ target, target.isWildcardFree = true → (scope.accepts pattern target = true ↔
        ∃ assigned, (scope.fill assigned pattern).unspanned = target.unspanned)) ↔
      ∀ name ∈ pattern.sealedNames, scope.isPlaceholder name = false) := by
  refine ⟨fun target htarget => accepts_iff_exists_fillOpen hpattern htarget, ?_, ?_⟩
  · intro hbind
    have hmarked : (scope.fill (fun _ => marker) pattern).isWildcardFree = true :=
      isWildcardFree_fill (fun _ => by decide) pattern hpattern
    have haccepts := (hbind _ hmarked).mpr ⟨_, rfl⟩
    obtain ⟨assigned, hfilled⟩ := (accepts_iff_exists_fillOpen hpattern hmarked).mp haccepts
    exact sealedNames_of_fillOpen_eq pattern hfilled
  · intro hopen target htarget
    rw [accepts_iff_exists_fillOpen hpattern htarget]
    simp only [fillOpen_eq_fill pattern hopen]

end PatternScope

namespace Containers

-- An interface for containers, where nothing is declared.
def scope : PatternScope := ⟨∅, ["K"], []⟩

def name (text : String) : TypeExpr := .simple text default

def mapOf (key value : TypeExpr) : TypeExpr := .generic (name "Map") [key, value] default

def maybe (inner : TypeExpr) : TypeExpr := .nullable inner default

-- Any container of keys, an index by the same keys, and an optional text.
def indexed : TypeExpr :=
  .generic (name "M") [name "K", mapOf (name "K") (name "V"), maybe (name "String")] default

def table : TypeExpr :=
  .generic (name "Table") [name "i32", mapOf (name "i32") (maybe (name "bool")),
    maybe (name "String")] default

-- What the placeholders stand for in the table.
def columns (placeholder : String) : TypeExpr :=
  if placeholder = "M" then name "Table" else if placeholder = "K" then name "i32"
  else maybe (name "bool")

end Containers

open Containers in
-- The placeholders of the pattern are a constructor, a repeated key and a value. What is sealed
-- is no placeholder.
theorem table_is_indexed :
    indexed.isWildcardFree = true ∧ table.isWildcardFree = true ∧
      indexed.sealedNames = ["String"] ∧ (scope.fill columns indexed).unspanned = table.unspanned ∧
      scope.accepts indexed table = true := by
  have hpattern : indexed.isWildcardFree = true := by decide +kernel
  have htarget : table.isWildcardFree = true := by decide +kernel
  have hsealed : indexed.sealedNames = ["String"] := by decide +kernel
  have hfilled : (scope.fill columns indexed).unspanned = table.unspanned := by decide +kernel
  have hopen : ∀ name ∈ indexed.sealedNames, scope.isPlaceholder name = false := by
    decide +kernel
  have hbind := (PatternScope.placeholders_bind_iff_open scope hpattern).2.mpr hopen
  exact ⟨hpattern, htarget, hsealed, hfilled, (hbind table htarget).mpr ⟨columns, hfilled⟩⟩

open Containers in
-- An optional key does not stand for an optional number. Inside an optional type the key keeps its
-- name, also where it stands for a number elsewhere in the pattern.
theorem sealed_key_keeps_name :
    (scope.accepts (maybe (name "K")) (maybe (name "i32")) = false ∧
      ∃ assigned, (scope.fill assigned (maybe (name "K"))).unspanned =
        (maybe (name "i32")).unspanned) ∧
    (scope.accepts (mapOf (name "K") (maybe (name "K")))
        (mapOf (name "i32") (maybe (name "K"))) = true ∧
      ¬ ∃ assigned, (scope.fill assigned (mapOf (name "K") (maybe (name "K")))).unspanned =
        (mapOf (name "i32") (maybe (name "K"))).unspanned) := by
  refine ⟨⟨by decide +kernel, fun _ => name "i32", by decide +kernel⟩, by decide +kernel, ?_⟩
  rintro ⟨assigned, hfilled⟩
  have hkey : scope.isPlaceholder "K" = true := by decide +kernel
  have hmap : scope.isPlaceholder "Map" = false := by decide +kernel
  have hboth : (assigned "K").unspanned = name "i32" ∧ (assigned "K").unspanned = name "K" := by
    simpa [mapOf, maybe, name, PatternScope.fill, PatternScope.fillAll, hkey, hmap,
      TypeExpr.unspanned] using hfilled
  have hsame : name "i32" = name "K" := hboth.1.symm.trans hboth.2
  exact absurd hsame (by decide +kernel)

end Conformance
