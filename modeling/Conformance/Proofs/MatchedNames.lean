import Conformance.Proofs.MatchedParts
import Conformance.Proofs.RegistryOrder

namespace Conformance

-- A match gives a meaning to the parameters of its target, and to no other name.

namespace Ty

theorem hereditary_true : Hereditary fun _ => True :=
  ⟨trivial, fun _ => trivial, fun _ _ _ _ => trivial, fun _ _ _ => trivial,
    fun _ _ _ => trivial, fun _ => trivial⟩

-- A name that is none of the parameters of the target is left without a meaning.
theorem bindParam_unbound {name other : String} (hne : other ≠ name) (t : Ty) {s : Substitution}
    (hs : s.get? name = none) :
    MatchKeeps (fun s => s.get? name = none) (bindParam other t s) := by
  refine bindParam_keeps (I := fun s => s.get? name = none) hs ?_
  rw [Bindings.get?_insert, if_neg hne, hs]

theorem bindingKeeps_unbound {name : String} {params : List String} (h : name ∉ params)
    (heads : List String) :
    BindingKeeps (fun _ => True) (fun s => s.get? name = none) params heads where
  part _ hother t _ _ _ hs := bindParam_unbound (ne_of_mem_of_not_mem hother h) t hs
  head _ hother _ _ t _ _ _ _ hs := bindParam_unbound (ne_of_mem_of_not_mem hother h) t hs

theorem paramNames_resolveAlias (t : Ty) : t.resolveAlias.paramNames = t.paramNames := by
  fun_induction Ty.resolveAlias t with
  | case1 name target ih => rw [ih, paramNames]
  | case2 t => rfl

theorem paramNames_asInterface? {target : Ty} {name : String} {args : List Ty}
    (h : target.asInterface? = some (name, args)) : paramNamesOfAll args ⊆ target.paramNames := by
  rw [asInterface?] at h
  rw [← paramNames_resolveAlias]
  split at h
  · obtain ⟨-, rfl⟩ : _ = name ∧ [] = args := by simpa using h
    simp [paramNamesOfAll]
  · rename_i base own hresolved
    split at h
    · obtain ⟨-, rfl⟩ : _ = name ∧ own = args := by simpa using h
      rw [hresolved, paramNames]
      exact List.subset_append_right _ _
    · cases h
  · cases h

-- A match of a target, before the parameters that it did not bind are closed.
def Fills (target : Ty) (generics : List (TypeParam Ty)) (found : Match) : Prop :=
  ∃ m : Match, found = m.close generics ∧
    ∀ name, name ∉ target.paramNames → m.substitution.get? name = none

namespace Fills

variable {target : Ty} {generics : List (TypeParam Ty)} {found : Match}

theorem isSome_get? (h : Fills target generics found) {name : String}
    (hname : name ∈ TypeParam.names generics) : (found.substitution.get? name).isSome := by
  obtain ⟨m, rfl, -⟩ := h
  obtain ⟨generic, hgeneric, rfl⟩ := List.mem_map.mp hname
  exact Substitution.isSome_close m generics hgeneric

theorem get?_eq_none (h : Fills target generics found) {name : String}
    (htarget : name ∉ target.paramNames) (hname : name ∉ TypeParam.names generics) :
    found.substitution.get? name = none := by
  obtain ⟨m, rfl, hm⟩ := h
  rw [Substitution.get?_close_of_not_mem m generics hname]
  exact hm name htarget

end Fills

theorem fills_of_matchType {t target : Ty} {generics : List (TypeParam Ty)} {found : Match}
    (h : matchType t target generics = some found) : Fills target generics found := by
  obtain ⟨m, hm, rfl⟩ := Option.map_eq_some_iff.mp h
  refine ⟨m, rfl, fun name hname => ?_⟩
  exact unify_keeps hereditary_true target (bindingKeeps_unbound hname _) trivial rfl m hm

theorem fills_of_matchArgs {target : Ty} {ts targets : List Ty} {generics : List (TypeParam Ty)}
    {found : Match} (h : matchArgs ts targets generics = some found)
    (hsub : paramNamesOfAll targets ⊆ target.paramNames) : Fills target generics found := by
  rw [matchArgs] at h
  split at h
  · exact ⟨⟨∅, 0⟩, (Option.some.inj h).symm, fun name _ => rfl⟩
  · split at h
    · obtain ⟨m, hm, rfl⟩ := Option.map_eq_some_iff.mp h
      refine ⟨m, rfl, fun name hname => ?_⟩
      exact unifyAll_keeps hereditary_true targets
        (bindingKeeps_unbound (fun hmem => hname (hsub hmem)) _) (fun _ _ => trivial) rfl m hm
    · cases h

end Ty

namespace Resolver

theorem fills_of_matchTargetIn {r : Resolver} {below : Option Explorer} {goals : List Goal}
    {subject target : Ty} {generics : List (TypeParam Ty)} {found : Match}
    (h : r.matchTargetIn below goals subject target generics = some found) :
    Ty.Fills target generics found := by
  rw [matchTargetIn] at h
  cases hview : target.asInterface? with
  | none =>
      rw [hview] at h
      exact Ty.fills_of_matchType h
  | some view =>
      obtain ⟨interface, targetArgs⟩ := view
      have hsub := Ty.paramNames_asInterface? hview
      -- The implementations of the target give the match of one of their arguments.
      have hblanket : r.matchInterface below goals subject interface targetArgs generics =
          some found → Ty.Fills target generics found := by
        intro h
        rw [matchInterface_eq] at h
        split at h
        · cases h
        · obtain ⟨survivor, -, hfit⟩ := bestFit_eq_some h
          exact Ty.fills_of_matchArgs hfit hsub
      simp only [hview] at h
      split at h
      · cases h
      · split at h
        · split at h
          · exact Ty.fills_of_matchArgs h hsub
          · exact hblanket h
        · exact hblanket h

end Resolver

-- No other name makes a difference to a match.

namespace Substitution

def AgreeOn (names : List String) (s s' : Substitution) : Prop :=
  ∀ name ∈ names, s.get? name = s'.get? name

end Substitution

namespace Ty

section Frame

variable {names : List String} {s s' : Substitution}

theorem bindParam_agree {name : String} (hname : name ∈ names) (t : Ty)
    (hs : s.AgreeOn names s') :
    MatchesRelated (Substitution.AgreeOn names) (bindParam name t s) (bindParam name t s') := by
  have hinsert : Substitution.AgreeOn names (s.insert name t) (s'.insert name t) := by
    intro other hother
    rw [Bindings.get?_insert, Bindings.get?_insert, hs other hother]
  rw [bindParam, bindParam, ← hs name hname]
  split
  · exact .some hinsert 0
  · split
    · exact .some hs 0
    · exact .none
  · exact .some hinsert 0

theorem bindingsRelated_agree {params : List String} (hparams : params ⊆ names)
    (heads : List String) :
    BindingsRelated (fun a b => a = b ∧ True) (Substitution.AgreeOn names) (fun _ => True)
      params heads where
  part := by
    rintro name hname a _ s s' ⟨rfl, -⟩ - hs
    exact (bindParam_agree (hparams hname) a hs).follows
  head := by
    rintro name hname - a _ x y s s' ⟨rfl, -⟩ hx hy - hs
    obtain rfl := Option.some.inj (hx.symm.trans hy)
    exact (bindParam_agree (hparams hname) x hs).follows

theorem unify_agree (target : Ty) (hnames : target.paramNames ⊆ names) (t : Ty)
    (hs : s.AgreeOn names s') :
    MatchesRelated (Substitution.AgreeOn names) (unify target t s) (unify target t s') := by
  have hmet := List.Subset.trans (metNames_subset target) hnames
  exact (unify_related hereditary_true.subjectsRelated backward_true target
    (.inr fun _ => trivial) (bindingsRelated_agree hmet _) ⟨rfl, trivial⟩ hs).related

end Frame

end Ty

end Conformance
