import Conformance.Ty.Substitution

namespace Conformance

namespace Bindings

variable {α : Type} {entries : List (String × α)} {name : String}

-- What a list binds a name to is one of its entries.
theorem mem_of_get?_ofList {value : α} (h : (ofList entries).get? name = some value) :
    (name, value) ∈ entries := by
  have hfold : ∀ b : Bindings α,
      (entries.foldl (fun b entry => b.insert entry.1 entry.2) b).get? name = some value →
        (name, value) ∈ entries ∨ b.get? name = some value := by
    clear h
    induction entries with
    | nil => exact fun b h => .inr h
    | cons entry rest ih =>
        intro b h
        rcases ih _ h with hmem | hbound
        · exact .inl (List.mem_cons_of_mem _ hmem)
        · rw [get?_insert] at hbound
          split at hbound
          · rename_i heq
            subst heq
            obtain rfl := Option.some.inj hbound
            exact .inl List.mem_cons_self
          · exact .inr hbound
  exact (hfold empty h).resolve_right (by simp)

theorem isSome_get?_ofList (h : name ∈ entries.map Prod.fst) :
    ((ofList entries).get? name).isSome := by
  have hfold : ∀ b : Bindings α, name ∈ entries.map Prod.fst ∨ (b.get? name).isSome →
      ((entries.foldl (fun b entry => b.insert entry.1 entry.2) b).get? name).isSome := by
    clear h
    induction entries with
    | nil => exact fun b h => h.resolve_left (by simp)
    | cons entry rest ih =>
        intro b h
        refine ih _ ?_
        rw [List.map_cons, List.mem_cons] at h
        rw [get?_insert]
        by_cases heq : entry.1 = name
        · exact .inr (by simp [heq])
        · simp only [heq, if_false]
          exact h.imp_left fun h => h.resolve_left (Ne.symm heq)
  exact hfold empty (.inl h)

-- Nothing is bound if no name is.
theorem isEmpty_iff {b : Bindings α} : b.isEmpty = true ↔ ∀ name, b.get? name = none := by
  obtain ⟨entries⟩ := b
  cases entries with
  | nil => exact ⟨fun _ _ => rfl, fun _ => rfl⟩
  | cons entry rest =>
      refine ⟨fun h => (by cases h), fun h => ?_⟩
      have hbound := h entry.1
      simp [get?, find] at hbound

theorem isEmpty_eq_false {b : Bindings α} (h : (b.get? name).isSome) : b.isEmpty = false := by
  rw [← Bool.not_eq_true]
  intro hempty
  rw [isEmpty_iff.mp hempty name] at h
  cases h

end Bindings

namespace Ty

theorem substitute_known {s : Substitution} (h : s.isEmpty = false) (t : Ty) :
    t.substitute s = t.instantiate s := by
  rw [substitute, if_neg (by simp [h])]

theorem substitute_eq_instantiate {s : Substitution} {name : String} (h : (s.get? name).isSome)
    (t : Ty) : t.substitute s = t.instantiate s :=
  substitute_known (Bindings.isEmpty_eq_false h) t

mutual
-- The parameters that a type mentions, also in the bounds and where-clauses of the
-- signatures inside it.
def paramNames : Ty → List String
  | .param name => [name]
  | .inst _ args => paramNamesOfAll args
  | .anyOf members => paramNamesOfAll members
  | .alias _ target => target.paramNames
  | .applied base args => base.paramNames ++ paramNamesOfAll args
  | .nullable inner => inner.paramNames
  | .function sig => paramNamesOfSignature sig
  | .overload sigs => paramNamesOfSignatures sigs
  | .unary _ arg => arg.paramNames
  | .map key value => key.paramNames ++ value.paramNames
  | _ => []
def paramNamesOfAll : List Ty → List String
  | [] => []
  | t :: ts => t.paramNames ++ paramNamesOfAll ts
def paramNamesOfSignature : Signature Ty → List String
  | ⟨generics, params, result, wheres⟩ =>
      paramNamesOfParams generics ++ paramNamesOfAll params ++ result.paramNames ++
        paramNamesOfWheres wheres
def paramNamesOfSignatures : List (Signature Ty) → List String
  | [] => []
  | sig :: sigs => paramNamesOfSignature sig ++ paramNamesOfSignatures sigs
def paramNamesOfParams : List (TypeParam Ty) → List String
  | [] => []
  | ⟨_, bounds⟩ :: ps => paramNamesOfAll bounds ++ paramNamesOfParams ps
def paramNamesOfWheres : List (WhereClause Ty) → List String
  | [] => []
  | ⟨_, subject, bounds⟩ :: ws =>
      subject.paramNames ++ paramNamesOfAll bounds ++ paramNamesOfWheres ws
end

section Congruence

variable {s s' : Substitution}

mutual
-- What a type becomes depends on the parameters that it mentions.
theorem instantiate_congr : (t : Ty) → (∀ name ∈ t.paramNames, s.get? name = s'.get? name) →
    t.instantiate s = t.instantiate s'
  | .unknown, _ | .scalar _, _ | .declared _ _ _, _ => rfl
  | .param name, h => by rw [instantiate, instantiate, h name (by simp [paramNames])]
  | .inst _ args, h => by rw [instantiate, instantiate, instantiateAll_congr args h]
  | .anyOf members, h => by rw [instantiate, instantiate, instantiateAll_congr members h]
  | .alias _ target, h => by rw [instantiate, instantiate, instantiate_congr target h]
  | .applied base args, h => by
      rw [instantiate, instantiate,
        instantiate_congr base fun name hmem => h name (by simp [paramNames, hmem]),
        instantiateAll_congr args fun name hmem => h name (by simp [paramNames, hmem])]
  | .nullable inner, h => by rw [instantiate, instantiate, instantiate_congr inner h]
  | .function sig, h => by rw [instantiate, instantiate, instantiateSignature_congr sig h]
  | .overload sigs, h => by rw [instantiate, instantiate, instantiateSignatures_congr sigs h]
  | .unary _ arg, h => by rw [instantiate, instantiate, instantiate_congr arg h]
  | .map key value, h => by
      rw [instantiate, instantiate,
        instantiate_congr key fun name hmem => h name (by simp [paramNames, hmem]),
        instantiate_congr value fun name hmem => h name (by simp [paramNames, hmem])]
theorem instantiateAll_congr : (ts : List Ty) →
    (∀ name ∈ paramNamesOfAll ts, s.get? name = s'.get? name) →
    instantiateAll s ts = instantiateAll s' ts
  | [], _ => rfl
  | t :: ts, h => by
      rw [instantiateAll, instantiateAll,
        instantiate_congr t fun name hmem => h name (by simp [paramNamesOfAll, hmem]),
        instantiateAll_congr ts fun name hmem => h name (by simp [paramNamesOfAll, hmem])]
theorem instantiateSignature_congr : (sig : Signature Ty) →
    (∀ name ∈ paramNamesOfSignature sig, s.get? name = s'.get? name) →
    instantiateSignature s sig = instantiateSignature s' sig
  | ⟨generics, params, result, wheres⟩, h => by
      rw [instantiateSignature, instantiateSignature,
        instantiateParams_congr generics fun name hmem =>
          h name (by simp [paramNamesOfSignature, hmem]),
        instantiateAll_congr params fun name hmem => h name (by simp [paramNamesOfSignature, hmem]),
        instantiate_congr result fun name hmem => h name (by simp [paramNamesOfSignature, hmem]),
        instantiateWheres_congr wheres fun name hmem =>
          h name (by simp [paramNamesOfSignature, hmem])]
theorem instantiateSignatures_congr : (sigs : List (Signature Ty)) →
    (∀ name ∈ paramNamesOfSignatures sigs, s.get? name = s'.get? name) →
    instantiateSignatures s sigs = instantiateSignatures s' sigs
  | [], _ => rfl
  | sig :: sigs, h => by
      rw [instantiateSignatures, instantiateSignatures,
        instantiateSignature_congr sig fun name hmem =>
          h name (by simp [paramNamesOfSignatures, hmem]),
        instantiateSignatures_congr sigs fun name hmem =>
          h name (by simp [paramNamesOfSignatures, hmem])]
theorem instantiateParams_congr : (ps : List (TypeParam Ty)) →
    (∀ name ∈ paramNamesOfParams ps, s.get? name = s'.get? name) →
    instantiateParams s ps = instantiateParams s' ps
  | [], _ => rfl
  | ⟨_, bounds⟩ :: ps, h => by
      rw [instantiateParams, instantiateParams,
        instantiateAll_congr bounds fun name hmem => h name (by simp [paramNamesOfParams, hmem]),
        instantiateParams_congr ps fun name hmem => h name (by simp [paramNamesOfParams, hmem])]
theorem instantiateWheres_congr : (ws : List (WhereClause Ty)) →
    (∀ name ∈ paramNamesOfWheres ws, s.get? name = s'.get? name) →
    instantiateWheres s ws = instantiateWheres s' ws
  | [], _ => rfl
  | ⟨_, subject, bounds⟩ :: ws, h => by
      rw [instantiateWheres, instantiateWheres,
        instantiate_congr subject fun name hmem => h name (by simp [paramNamesOfWheres, hmem]),
        instantiateAll_congr bounds fun name hmem => h name (by simp [paramNamesOfWheres, hmem]),
        instantiateWheres_congr ws fun name hmem => h name (by simp [paramNamesOfWheres, hmem])]
end

end Congruence

section NominalView

theorem nominal?_applyTo {base : Ty} {head : Nominal} (h : base.nominal? = some head)
    (args : List Ty) : (applyTo base args).nominal? = some ⟨head.name, head.head, args, false⟩ := by
  rw [applyTo.eq_def]
  split
  · obtain rfl := Option.some.inj h
    rfl
  · obtain rfl := Option.some.inj h
    rfl
  · simp [nominal?, h]

-- Instantiation leaves a constructor what it is.
theorem nominal?_instantiate (s : Substitution) : {t : Ty} → {n : Nominal} →
    t.nominal? = some n →
    (t.instantiate s).nominal? = some ⟨n.name, n.head, n.args.map (instantiate s), n.bare⟩
  | .declared _ _ _, _, h | .nullable _, _, h | .unary _ _, _, h | .map _ _, _, h => by
      obtain rfl := Option.some.inj h
      rfl
  | .inst _ args, _, h => by
      obtain rfl := Option.some.inj h
      rw [instantiate, nominal?, instantiateAll_eq]
  | .alias _ target, _, h => nominal?_instantiate s (t := target) h
  | .applied base args, _, h => by
      obtain ⟨head, hbase, rfl⟩ := Option.map_eq_some_iff.mp h
      rw [instantiate, nominal?_applyTo (nominal?_instantiate s hbase), instantiateAll_eq]

end NominalView

-- What stands for a parameter once a substitution is applied.
def standIn (s : Substitution) (name : String) : Ty := (s.get? name).getD (.param name)

section Composition

variable {b s b' : Substitution}

theorem instantiate_applyTo (base : Ty) (args : List Ty) :
    (applyTo base args).instantiate s = applyTo (base.instantiate s) (instantiateAll s args) := by
  rw [applyTo.eq_def]
  split <;> rfl

mutual
-- Two substitutions in turn are one, if it is so for the parameters that a type mentions. An
-- application that the first contracts is contracted by both.
theorem instantiate_instantiate : (t : Ty) →
    (∀ name ∈ t.paramNames, (standIn b name).instantiate s = standIn b' name) →
    (t.instantiate b).instantiate s = t.instantiate b'
  | .unknown, _ | .scalar _, _ | .declared _ _ _, _ => rfl
  | .param name, h => h name (by simp [paramNames])
  | .inst _ args, h => by simp only [instantiate, instantiateAll_instantiateAll args h]
  | .anyOf members, h => by simp only [instantiate, instantiateAll_instantiateAll members h]
  | .alias _ target, h => by simp only [instantiate, instantiate_instantiate target h]
  | .applied base args, h => by
      rw [instantiate, instantiate, instantiate_applyTo,
        instantiate_instantiate base fun name hmem => h name (by simp [paramNames, hmem]),
        instantiateAll_instantiateAll args fun name hmem => h name (by simp [paramNames, hmem])]
  | .nullable inner, h => by simp only [instantiate, instantiate_instantiate inner h]
  | .function sig, h => by simp only [instantiate, instantiateSignature_instantiateSignature sig h]
  | .overload sigs, h => by
      simp only [instantiate, instantiateSignatures_instantiateSignatures sigs h]
  | .unary _ arg, h => by simp only [instantiate, instantiate_instantiate arg h]
  | .map key value, h => by
      rw [instantiate, instantiate, instantiate,
        instantiate_instantiate key fun name hmem => h name (by simp [paramNames, hmem]),
        instantiate_instantiate value fun name hmem => h name (by simp [paramNames, hmem])]
theorem instantiateAll_instantiateAll : (ts : List Ty) →
    (∀ name ∈ paramNamesOfAll ts, (standIn b name).instantiate s = standIn b' name) →
    instantiateAll s (instantiateAll b ts) = instantiateAll b' ts
  | [], _ => rfl
  | t :: ts, h => by
      rw [instantiateAll, instantiateAll, instantiateAll,
        instantiate_instantiate t fun name hmem => h name (by simp [paramNamesOfAll, hmem]),
        instantiateAll_instantiateAll ts fun name hmem => h name (by simp [paramNamesOfAll, hmem])]
theorem instantiateSignature_instantiateSignature : (sig : Signature Ty) →
    (∀ name ∈ paramNamesOfSignature sig, (standIn b name).instantiate s = standIn b' name) →
    instantiateSignature s (instantiateSignature b sig) = instantiateSignature b' sig
  | ⟨generics, params, result, wheres⟩, h => by
      rw [instantiateSignature, instantiateSignature, instantiateSignature,
        instantiateParams_instantiateParams generics fun name hmem =>
          h name (by simp [paramNamesOfSignature, hmem]),
        instantiateAll_instantiateAll params fun name hmem =>
          h name (by simp [paramNamesOfSignature, hmem]),
        instantiate_instantiate result fun name hmem =>
          h name (by simp [paramNamesOfSignature, hmem]),
        instantiateWheres_instantiateWheres wheres fun name hmem =>
          h name (by simp [paramNamesOfSignature, hmem])]
theorem instantiateSignatures_instantiateSignatures : (sigs : List (Signature Ty)) →
    (∀ name ∈ paramNamesOfSignatures sigs, (standIn b name).instantiate s = standIn b' name) →
    instantiateSignatures s (instantiateSignatures b sigs) = instantiateSignatures b' sigs
  | [], _ => rfl
  | sig :: sigs, h => by
      rw [instantiateSignatures, instantiateSignatures, instantiateSignatures,
        instantiateSignature_instantiateSignature sig fun name hmem =>
          h name (by simp [paramNamesOfSignatures, hmem]),
        instantiateSignatures_instantiateSignatures sigs fun name hmem =>
          h name (by simp [paramNamesOfSignatures, hmem])]
theorem instantiateParams_instantiateParams : (ps : List (TypeParam Ty)) →
    (∀ name ∈ paramNamesOfParams ps, (standIn b name).instantiate s = standIn b' name) →
    instantiateParams s (instantiateParams b ps) = instantiateParams b' ps
  | [], _ => rfl
  | ⟨_, bounds⟩ :: ps, h => by
      rw [instantiateParams, instantiateParams, instantiateParams,
        instantiateAll_instantiateAll bounds fun name hmem =>
          h name (by simp [paramNamesOfParams, hmem]),
        instantiateParams_instantiateParams ps fun name hmem =>
          h name (by simp [paramNamesOfParams, hmem])]
theorem instantiateWheres_instantiateWheres : (ws : List (WhereClause Ty)) →
    (∀ name ∈ paramNamesOfWheres ws, (standIn b name).instantiate s = standIn b' name) →
    instantiateWheres s (instantiateWheres b ws) = instantiateWheres b' ws
  | [], _ => rfl
  | ⟨_, subject, bounds⟩ :: ws, h => by
      rw [instantiateWheres, instantiateWheres, instantiateWheres,
        instantiate_instantiate subject fun name hmem =>
          h name (by simp [paramNamesOfWheres, hmem]),
        instantiateAll_instantiateAll bounds fun name hmem =>
          h name (by simp [paramNamesOfWheres, hmem]),
        instantiateWheres_instantiateWheres ws fun name hmem =>
          h name (by simp [paramNamesOfWheres, hmem])]
end

end Composition

theorem mem_paramNamesOfAll {ts : List Ty} {p : String} :
    p ∈ paramNamesOfAll ts ↔ ∃ t ∈ ts, p ∈ t.paramNames := by
  induction ts with
  | nil => simp [paramNamesOfAll]
  | cons t ts ih => simp [paramNamesOfAll, ih]

theorem mem_paramNamesOfWheres {ws : List (WhereClause Ty)} {p : String} :
    p ∈ paramNamesOfWheres ws ↔
      ∃ clause ∈ ws, p ∈ clause.subject.paramNames ∨ ∃ t ∈ clause.bounds, p ∈ t.paramNames := by
  induction ws with
  | nil => simp [paramNamesOfWheres]
  | cons clause ws ih => simp [paramNamesOfWheres, mem_paramNamesOfAll, ih, or_assoc]

theorem mem_paramNames_applyTo {base : Ty} {args : List Ty} {p : String}
    (h : p ∈ (applyTo base args).paramNames) :
    p ∈ base.paramNames ∨ p ∈ paramNamesOfAll args := by
  rw [applyTo.eq_def] at h
  split at h
  · exact .inr (by simpa [paramNames, paramNamesOfAll] using h)
  · exact .inr (by simpa [paramNames, paramNamesOfAll] using h)
  · exact List.mem_append.mp h

section Instances

variable {s : Substitution} {P : String → Prop}

mutual
-- An instance mentions what stands for the parameters of the type.
theorem paramNames_instantiate : (t : Ty) →
    (∀ name ∈ t.paramNames, ∀ p ∈ (standIn s name).paramNames, P p) →
    ∀ p ∈ (t.instantiate s).paramNames, P p
  | .unknown, _, p, hp | .scalar _, _, p, hp | .declared _ _ _, _, p, hp => by cases hp
  | .param name, h, p, hp => h name (by simp [paramNames]) p hp
  | .inst _ args, h, p, hp => paramNames_instantiateAll args h p hp
  | .anyOf members, h, p, hp => paramNames_instantiateAll members h p hp
  | .alias _ target, h, p, hp => paramNames_instantiate target h p hp
  | .applied base args, h, p, hp => by
      simp only [paramNames, List.mem_append] at h
      rcases mem_paramNames_applyTo hp with hbase | hargs
      · exact paramNames_instantiate base (fun name hname => h name (.inl hname)) p hbase
      · exact paramNames_instantiateAll args (fun name hname => h name (.inr hname)) p hargs
  | .nullable inner, h, p, hp => paramNames_instantiate inner h p hp
  | .function sig, h, p, hp => paramNames_instantiateSignature sig h p hp
  | .overload sigs, h, p, hp => paramNames_instantiateSignatures sigs h p hp
  | .unary _ arg, h, p, hp => paramNames_instantiate arg h p hp
  | .map key value, h, p, hp => by
      simp only [paramNames, List.mem_append] at h
      rcases List.mem_append.mp hp with hkey | hvalue
      · exact paramNames_instantiate key (fun name hname => h name (.inl hname)) p hkey
      · exact paramNames_instantiate value (fun name hname => h name (.inr hname)) p hvalue
theorem paramNames_instantiateAll : (ts : List Ty) →
    (∀ name ∈ paramNamesOfAll ts, ∀ p ∈ (standIn s name).paramNames, P p) →
    ∀ p ∈ paramNamesOfAll (instantiateAll s ts), P p
  | [], _, p, hp => by cases hp
  | t :: ts, h, p, hp => by
      simp only [paramNamesOfAll, List.mem_append] at h
      rcases List.mem_append.mp hp with hfirst | hrest
      · exact paramNames_instantiate t (fun name hname => h name (.inl hname)) p hfirst
      · exact paramNames_instantiateAll ts (fun name hname => h name (.inr hname)) p hrest
theorem paramNames_instantiateSignature : (sig : Signature Ty) →
    (∀ name ∈ paramNamesOfSignature sig, ∀ p ∈ (standIn s name).paramNames, P p) →
    ∀ p ∈ paramNamesOfSignature (instantiateSignature s sig), P p
  | ⟨generics, params, result, wheres⟩, h, p, hp => by
      simp only [paramNamesOfSignature, List.mem_append] at h
      simp only [instantiateSignature, paramNamesOfSignature, List.mem_append] at hp
      rcases hp with ((hgenerics | hparams) | hresult) | hwheres
      · exact paramNames_instantiateParams generics
          (fun name hname => h name (.inl (.inl (.inl hname)))) p hgenerics
      · exact paramNames_instantiateAll params
          (fun name hname => h name (.inl (.inl (.inr hname)))) p hparams
      · exact paramNames_instantiate result (fun name hname => h name (.inl (.inr hname))) p hresult
      · exact paramNames_instantiateWheres wheres (fun name hname => h name (.inr hname)) p hwheres
theorem paramNames_instantiateSignatures : (sigs : List (Signature Ty)) →
    (∀ name ∈ paramNamesOfSignatures sigs, ∀ p ∈ (standIn s name).paramNames, P p) →
    ∀ p ∈ paramNamesOfSignatures (instantiateSignatures s sigs), P p
  | [], _, p, hp => by cases hp
  | sig :: sigs, h, p, hp => by
      simp only [paramNamesOfSignatures, List.mem_append] at h
      rcases List.mem_append.mp hp with hfirst | hrest
      · exact paramNames_instantiateSignature sig (fun name hname => h name (.inl hname)) p hfirst
      · exact paramNames_instantiateSignatures sigs (fun name hname => h name (.inr hname)) p hrest
theorem paramNames_instantiateParams : (ps : List (TypeParam Ty)) →
    (∀ name ∈ paramNamesOfParams ps, ∀ p ∈ (standIn s name).paramNames, P p) →
    ∀ p ∈ paramNamesOfParams (instantiateParams s ps), P p
  | [], _, p, hp => by cases hp
  | ⟨_, bounds⟩ :: ps, h, p, hp => by
      simp only [paramNamesOfParams, List.mem_append] at h
      rcases List.mem_append.mp hp with hfirst | hrest
      · exact paramNames_instantiateAll bounds (fun name hname => h name (.inl hname)) p hfirst
      · exact paramNames_instantiateParams ps (fun name hname => h name (.inr hname)) p hrest
theorem paramNames_instantiateWheres : (ws : List (WhereClause Ty)) →
    (∀ name ∈ paramNamesOfWheres ws, ∀ p ∈ (standIn s name).paramNames, P p) →
    ∀ p ∈ paramNamesOfWheres (instantiateWheres s ws), P p
  | [], _, p, hp => by cases hp
  | ⟨_, subject, bounds⟩ :: ws, h, p, hp => by
      simp only [paramNamesOfWheres, List.mem_append] at h
      simp only [instantiateWheres, paramNamesOfWheres, List.mem_append] at hp
      rcases hp with (hsubject | hbounds) | hrest
      · exact paramNames_instantiate subject
          (fun name hname => h name (.inl (.inl hname))) p hsubject
      · exact paramNames_instantiateAll bounds
          (fun name hname => h name (.inl (.inr hname))) p hbounds
      · exact paramNames_instantiateWheres ws (fun name hname => h name (.inr hname)) p hrest
end

end Instances

end Ty

end Conformance
