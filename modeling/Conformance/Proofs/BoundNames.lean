import Conformance.Proofs.InstantiatedTargets
import Conformance.Proofs.MatchedNames

namespace Conformance

-- Which parameters of its target a match binds can be read off the two types: all that are met,
-- position by position, while something is known about the subject.

namespace Ty

-- The arguments of a type with a constructor. Other types have none.
def arguments (t : Ty) : List Ty := (t.nominal?.map Nominal.args).getD []

mutual
-- The parameters that a match binds. What is unknown binds none, and neither do nothing in the
-- place of a nullable type and a constructor without its arguments. What a union binds depends on
-- the members that are taken, and is not counted.
def boundNames : (target subject : Ty) → List String
  | .param name, subject => if subject.isUnknown then [] else [name]
  | .alias _ target, subject => boundNames target subject.resolveAlias
  | .inst _ args, subject => boundNamesOfAll args subject.arguments
  | .applied base args, subject =>
      (if subject.nominal?.isSome then base.paramName?.toList else []) ++
        boundNamesOfAll args subject.arguments
  | .nullable target, subject =>
      match subject.resolveAlias with
      | .nullable inner => boundNames target inner
      | actual => if actual = .nil then [] else boundNames target actual
  | .function sig, subject =>
      match subject.resolveAlias with
      | .function actual => boundNamesOfSignature sig actual
      | _ => []
  | .unary _ arg, subject => boundNames arg (subject.arguments.getD 0 .unknown)
  | .map key value, subject =>
      boundNames key (subject.arguments.getD 0 .unknown) ++
        boundNames value (subject.arguments.getD 1 .unknown)
  | _, _ => []
termination_by structural target => target
def boundNamesOfAll : (targets subjects : List Ty) → List String
  | [], _ => []
  | target :: targets, subjects =>
      boundNames target (subjects.getD 0 .unknown) ++ boundNamesOfAll targets subjects.tail
termination_by structural targets => targets
def boundNamesOfSignature : (target subject : Signature Ty) → List String
  | ⟨_, params, result, _⟩, actual =>
      boundNamesOfAll params actual.params ++ boundNames result actual.result
termination_by structural target => target
end

theorem arguments_of_nominal? {t : Ty} {n : Nominal} (h : t.nominal? = some n) :
    t.arguments = n.args := by
  rw [arguments, h]
  rfl

theorem nominal?_of_unknown {t : Ty} (h : t.resolveAlias.isUnknown = true) :
    t.nominal? = none := by
  rw [← nominal?_resolveAlias, eq_unknown_of_isUnknown h]
  rfl

theorem arguments_of_unknown {t : Ty} (h : t.resolveAlias.isUnknown = true) :
    t.arguments = [] := by
  rw [arguments, nominal?_of_unknown h]
  rfl

mutual
theorem boundNames_unknown : (target : Ty) → boundNames target .unknown = []
  | .param _ => rfl
  | .alias _ target => boundNames_unknown target
  | .inst _ args => boundNamesOfAll_nil args
  | .applied _ args => boundNamesOfAll_nil args
  | .nullable target => by simp [boundNames, resolveAlias, nil, boundNames_unknown target]
  | .unary _ arg => boundNames_unknown arg
  | .map key value => by
      rw [boundNames]
      exact List.append_eq_nil_iff.mpr ⟨boundNames_unknown key, boundNames_unknown value⟩
  | .unknown | .scalar _ | .declared _ _ _ | .anyOf _ | .function _ | .overload _ => rfl
theorem boundNamesOfAll_nil : (targets : List Ty) → boundNamesOfAll targets [] = []
  | [] => rfl
  | target :: targets => by
      rw [boundNamesOfAll]
      exact List.append_eq_nil_iff.mpr ⟨boundNames_unknown target, boundNamesOfAll_nil targets⟩
end

end Ty

-- From one substitution to the next nothing is lost, some names are bound, and no others if the
-- count is exact.
structure Substitution.Binds (exact : Prop) (names : List String) (s s' : Substitution) : Prop where
  keeps : ∀ name, (s.get? name).isSome → (s'.get? name).isSome
  binds : ∀ name ∈ names, (s'.get? name).isSome
  only : exact → ∀ name, (s'.get? name).isSome → (s.get? name).isSome ∨ name ∈ names

namespace Substitution.Binds

variable {exact exact' : Prop} {names names' : List String} {s s' s'' : Substitution}

theorem refl (exact : Prop) (s : Substitution) : Binds exact [] s s where
  keeps _ h := h
  binds _ h := by cases h
  only _ _ h := .inl h

theorem trans (h : Binds exact names s s') (h' : Binds exact' names' s' s'') :
    Binds (exact ∧ exact') (names ++ names') s s'' where
  keeps name hname := h'.keeps name (h.keeps name hname)
  binds name hname := by
    rcases List.mem_append.mp hname with hname | hname
    · exact h'.keeps name (h.binds name hname)
    · exact h'.binds name hname
  only hexact name hname := by
    rw [List.mem_append]
    rcases h'.only hexact.2 name hname with hname | hname
    · exact (h.only hexact.1 name hname).imp_right .inl
    · exact .inr (.inr hname)

theorem mono (h : Binds exact names s s') (hexact : exact' → exact) : Binds exact' names s s' :=
  ⟨h.keeps, h.binds, fun h' => h.only (hexact h')⟩

end Substitution.Binds

namespace Ty

open Substitution (Binds)

variable {s : Substitution} {m : Match}

theorem bindParam_binds {name : String} {t : Ty} (h : bindParam name t s = some m) :
    Binds True [name] s m.substitution := by
  have hinsert : Binds True [name] s (s.insert name t) := by
    refine ⟨fun other hother => ?_, fun other hother => ?_, fun _ other hother => ?_⟩
    · rw [Bindings.get?_insert]
      split
      · rfl
      · exact hother
    · rw [List.mem_singleton.mp hother, Bindings.get?_insert, if_pos rfl]
      rfl
    · rw [Bindings.get?_insert] at hother
      split at hother
      · rename_i heq
        exact .inr (List.mem_singleton.mpr heq.symm)
      · exact .inl hother
  rw [bindParam] at h
  split at h
  · obtain rfl := Option.some.inj h
    exact hinsert
  · rename_i bound hget
    split at h
    · obtain rfl := Option.some.inj h
      refine ⟨fun _ hother => hother, fun other hother => ?_, fun _ _ hother => .inl hother⟩
      rw [List.mem_singleton.mp hother, hget]
      rfl
    · cases h
  · obtain rfl := Option.some.inj h
    exact hinsert

-- What is bound stays bound, whatever a match does.
theorem unify_keepsBound {target t : Ty} (h : unify target t s = some m) (name : String)
    (hname : (s.get? name).isSome) : (m.substitution.get? name).isSome := by
  have hbind (other : String) (value : Ty) (s : Substitution) (hs : (s.get? name).isSome) :
      MatchKeeps (fun s => (s.get? name).isSome) (bindParam other value s) :=
    fun found hfound => (bindParam_binds hfound).keeps name hs
  refine unify_keeps (I := fun s => (s.get? name).isSome) hereditary_true target ⟨?_, ?_⟩ trivial
    hname m h
  · exact fun other _ value s _ _ => hbind other value s
  · exact fun other _ _ _ value s _ _ _ => hbind other value s

theorem matchArguments_binds {exact : Prop} {t : Ty} {args : List Ty} {n : Nominal}
    (hn : t.nominal? = some n)
    (hargs : ∀ found, unifyAll args n.args s = some found →
      Binds exact (boundNamesOfAll args n.args) s found.substitution)
    (h : matchArguments args n s = some m) :
    Binds exact (boundNamesOfAll args t.arguments) s m.substitution := by
  rw [arguments_of_nominal? hn]
  rw [matchArguments] at h
  split_ifs at h with hbare hmany
  · obtain rfl := Option.some.inj h
    rw [(declared_of_bare hn hbare).1, boundNamesOfAll_nil]
    exact .refl _ s
  · obtain ⟨found, hfound, rfl⟩ := Option.map_eq_some_iff.mp h
    exact hargs found hfound

mutual
theorem unify_binds : (target : Ty) → {t : Ty} → {s : Substitution} → {m : Match} →
    unify target t s = some m →
    Binds (target.isUnionFree = true) (boundNames target t) s m.substitution
  | .unknown, t, s, m, h => by
      rw [unify] at h
      obtain rfl := Option.some.inj h
      exact .refl _ s
  | .param name, t, s, m, h => by
      rw [unify] at h
      rw [boundNames]
      split_ifs at h ⊢ with hunknown
      · obtain rfl := Option.some.inj h
        exact .refl _ s
      · exact (bindParam_binds h).mono fun _ => trivial
  | .alias _ target, t, s, m, h => by
      rw [unify] at h
      exact unify_binds target h
  | .scalar kind, t, s, m, h => by
      rw [unify] at h
      split at h
      · obtain rfl := Option.some.inj h
        exact .refl _ s
      · split at h
        · obtain rfl := Option.some.inj h
          exact .refl _ s
        · cases h
      · cases h
  | .declared _ _ _, t, s, m, h => by
      rw [unify_declared] at h
      obtain ⟨-, rfl⟩ | ⟨n, -, h⟩ := matchNominal_cases h
      · exact .refl _ s
      · split at h
        · obtain rfl := Option.some.inj h
          exact .refl _ s
        · cases h
  | .inst name args, t, s, m, h => by
      rw [unify_inst] at h
      rw [boundNames]
      obtain ⟨hunknown, rfl⟩ | ⟨n, hn, h⟩ := matchNominal_cases h
      · rw [arguments_of_unknown hunknown, boundNamesOfAll_nil]
        exact .refl _ s
      · split at h
        · exact matchArguments_binds hn (fun found => unifyAll_binds args) h
        · cases h
  | .anyOf members, t, s, m, h =>
      ⟨unify_keepsBound h, fun _ hname => (by cases hname), fun hexact => (by cases hexact)⟩
  | .applied base args, t, s, m, h => by
      rw [boundNames]
      cases hbase : base.isParam with
      | true =>
          obtain ⟨name, rfl⟩ := eq_param_of_isParam hbase
          rw [unify_applied_param] at h
          obtain ⟨hunknown, rfl⟩ | ⟨n, hn, h⟩ := matchNominal_cases h
          · rw [nominal?_of_unknown hunknown, arguments_of_unknown hunknown, boundNamesOfAll_nil]
            exact .refl _ s
          · split at h
            · obtain ⟨constructor, -, h⟩ := Option.bind_eq_some_iff.mp h
              obtain ⟨first, hfirst, h⟩ := Option.bind_eq_some_iff.mp h
              rw [hn, arguments_of_nominal? hn]
              exact ((bindParam_binds hfirst).trans (unifyAll_binds args h)).mono
                fun hexact => ⟨trivial, hexact⟩
            · cases h
      | false =>
          have hnone : base.paramName? = none := by
            cases base with
            | param => cases hbase
            | _ => rfl
          have hnames : (if t.nominal?.isSome then base.paramName?.toList else []) = [] := by
            rw [hnone]
            split <;> rfl
          rw [hnames, List.nil_append]
          rw [unify_applied hbase] at h
          obtain ⟨hunknown, rfl⟩ | ⟨n, hn, h⟩ := matchNominal_cases h
          · rw [arguments_of_unknown hunknown, boundNamesOfAll_nil]
            exact .refl _ s
          · split at h
            · split at h
              · exact matchArguments_binds hn (fun found => unifyAll_binds args) h
              · cases h
            · cases h
  | .nullable target, t, s, m, h => by
      rw [unify] at h
      rw [boundNames]
      generalize t.resolveAlias = actual at h ⊢
      have hplain (h : (if actual = .nil then some ⟨s, 0⟩
          else (unify target actual s).map Match.withoutScore) = some m) :
          Binds (target.isUnionFree = true) (if actual = .nil then [] else boundNames target actual)
            s m.substitution := by
        split_ifs at h ⊢
        · obtain rfl := Option.some.inj h
          exact .refl _ s
        · obtain ⟨found, hfound, rfl⟩ := Option.map_eq_some_iff.mp h
          exact unify_binds target (m := found) hfound
      cases actual with
      | unknown =>
          obtain rfl := Option.some.inj h
          simpa [boundNames_unknown, nil] using
            Binds.refl ((Ty.nullable target).isUnionFree = true) s
      | nullable inner =>
          obtain ⟨found, hfound, rfl⟩ := Option.map_eq_some_iff.mp h
          exact unify_binds target (m := found) hfound
      | _ => exact hplain h
  | .function sig, t, s, m, h => by
      rw [unify] at h
      rw [boundNames]
      generalize t.resolveAlias = actual at h ⊢
      cases actual with
      | unknown =>
          obtain rfl := Option.some.inj h
          exact .refl _ s
      | function own =>
          obtain ⟨found, hfound, rfl⟩ := Option.map_eq_some_iff.mp h
          exact unifySignature_binds sig (m := found) hfound
      | _ => cases h
  | .overload _, t, s, m, h => by
      rw [unify] at h
      split at h
      · obtain rfl := Option.some.inj h
        exact .refl _ s
      · cases h
  | .unary _ arg, t, s, m, h => by
      rw [unify_unary] at h
      rw [boundNames]
      obtain ⟨hunknown, rfl⟩ | ⟨n, hn, h⟩ := matchNominal_cases h
      · rw [arguments_of_unknown hunknown, List.getD_nil, boundNames_unknown]
        exact .refl _ s
      · split at h
        · obtain ⟨found, hfound, rfl⟩ := Option.map_eq_some_iff.mp h
          rw [arguments_of_nominal? hn]
          exact unify_binds arg (m := found) hfound
        · cases h
  | .map key value, t, s, m, h => by
      rw [unify_map] at h
      rw [boundNames]
      obtain ⟨hunknown, rfl⟩ | ⟨n, hn, h⟩ := matchNominal_cases h
      · rw [arguments_of_unknown hunknown, List.getD_nil, List.getD_nil, boundNames_unknown,
          boundNames_unknown]
        exact .refl _ s
      · split at h
        · obtain ⟨first, hfirst, h⟩ := Option.bind_eq_some_iff.mp h
          obtain ⟨found, hfound, h⟩ := Option.bind_eq_some_iff.mp h
          obtain rfl := Option.some.inj h
          rw [arguments_of_nominal? hn]
          refine ((unify_binds key hfirst).trans (unify_binds value hfound)).mono fun hexact => ?_
          rwa [isUnionFree, Bool.and_eq_true] at hexact
        · cases h
theorem unifyAll_binds : (targets : List Ty) → {ts : List Ty} → {s : Substitution} →
    {m : Match} → unifyAll targets ts s = some m →
    Binds (allUnionFree targets = true) (boundNamesOfAll targets ts) s m.substitution
  | [], _, s, m, h => by
      rw [unifyAll] at h
      obtain rfl := Option.some.inj h
      exact .refl _ s
  | target :: targets, ts, s, m, h => by
      rw [unifyAll, headD_eq_getD] at h
      obtain ⟨first, hfirst, h⟩ := Option.bind_eq_some_iff.mp h
      obtain ⟨found, hfound, h⟩ := Option.bind_eq_some_iff.mp h
      obtain rfl := Option.some.inj h
      refine ((unify_binds target hfirst).trans (unifyAll_binds targets hfound)).mono
        fun hexact => ?_
      rwa [allUnionFree, Bool.and_eq_true] at hexact
theorem unifySignature_binds : (target : Signature Ty) → {sig : Signature Ty} →
    {s : Substitution} → {m : Match} → unifySignature target sig s = some m →
    Binds (signatureUnionFree target = true) (boundNamesOfSignature target sig) s m.substitution
  | ⟨_, params, result, _⟩, sig, s, m, h => by
      rw [unifySignature] at h
      split at h
      · obtain ⟨first, hfirst, h⟩ := Option.bind_eq_some_iff.mp h
        obtain ⟨found, hfound, h⟩ := Option.bind_eq_some_iff.mp h
        obtain rfl := Option.some.inj h
        refine ((unifyAll_binds params hfirst).trans (unify_binds result hfound)).mono
          fun hexact => ?_
        rwa [signatureUnionFree, Bool.and_eq_true] at hexact
      · cases h
end

end Ty

end Conformance
