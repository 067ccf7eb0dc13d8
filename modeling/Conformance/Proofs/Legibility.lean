import Conformance.Proofs.MatchedParts
import Conformance.Proofs.Vocabulary
import Conformance.Resolution

namespace Conformance

namespace Vocabulary

variable {V : Vocabulary}

-- The names of the vocabulary that stand for parameters.
def IsParam (V : Vocabulary) (name : String) : Prop := V.lead? name = some (.param name)

def Legible (V : Vocabulary) (t : Ty) : Prop := V.legible false t = true

instance (V : Vocabulary) (t : Ty) : Decidable (V.Legible t) :=
  inferInstanceAs (Decidable (V.legible false t = true))

theorem allLegible_iff {closed : Bool} {ts : List Ty} :
    V.allLegible closed ts = true ↔ ∀ t ∈ ts, V.legible closed t = true := by
  induction ts with
  | nil => simp [allLegible]
  | cons t ts ih => simp [allLegible, ih]

-- A name alone is a type that has neither arguments nor members.
theorem isAtom_cases {t : Ty} (h : V.isAtom t = true) :
    t = .unknown ∨ (∃ kind, t = .scalar kind) ∨ (∃ family name, t = .declared family name []) ∨
      (∃ name, t = .inst name []) ∨ ∃ name target, t = .alias name target := by
  obtain ⟨-, hlead⟩ := isAtom_iff.mp h
  rw [lead?] at hlead
  split_ifs at hlead
  · grind
  · grind
  · split at hlead
    · grind
    · grind
    · grind
    · split at hlead <;> grind

theorem legible_unknown : V.Legible .unknown := by
  have hatom : V.isAtom .unknown = true := isAtom_iff.mpr ⟨by decide, rfl⟩
  exact hatom

mutual
theorem legible_of_closed : (t : Ty) → V.legible true t = true → V.legible false t = true
  | .param _, h => by simp [legible] at h
  | .inst _ (arg :: args), h => by
      simp only [legible, Bool.and_eq_true] at h ⊢
      exact ⟨⟨h.1.1, legible_of_closed arg h.1.2⟩, allLegible_of_closed args h.2⟩
  | .applied base args, h => by
      cases base with
      | declared family name params =>
          simp only [legible, Bool.and_eq_true] at h ⊢
          exact ⟨h.1, allLegible_of_closed args h.2⟩
      | _ => exact h
  | .function ⟨generics, params, result, wheres⟩, h => by
      match generics, wheres with
      | [], [] =>
          simp only [legible, Bool.and_eq_true] at h ⊢
          exact ⟨allLegible_of_closed params h.1, legible_of_closed result h.2⟩
      | _ :: _, _ => exact h
      | [], _ :: _ => exact h
  | .unary _ arg, h => by
      simp only [legible] at h ⊢
      exact legible_of_closed arg h
  | .map key value, h => by
      simp only [legible, Bool.and_eq_true] at h ⊢
      exact ⟨legible_of_closed key h.1, legible_of_closed value h.2⟩
  | .alias _ _, h | .nullable _, h | .anyOf _, h | .unknown, h | .scalar _, h
  | .declared _ _ _, h | .inst _ [], h | .overload _, h => h
theorem allLegible_of_closed : (ts : List Ty) → V.allLegible true ts = true →
    V.allLegible false ts = true
  | [], _ => rfl
  | t :: ts, h => by
      simp only [allLegible, Bool.and_eq_true] at h ⊢
      exact ⟨legible_of_closed t h.1, allLegible_of_closed ts h.2⟩
end

mutual
theorem instantiate_closed (s : Substitution) : (t : Ty) → V.legible true t = true →
    t.instantiate s = t
  | .param _, h => by simp [legible] at h
  | .alias name target, h => by
      simp only [legible, Bool.and_eq_true] at h
      rw [Ty.instantiate, instantiate_closed s target h.2]
  | .inst _ [], _ => rfl
  | .inst _ (arg :: args), h => by
      simp only [legible, Bool.and_eq_true] at h
      rw [Ty.instantiate, Ty.instantiateAll, instantiate_closed s arg h.1.2,
        instantiateAll_closed s args h.2]
  | .applied base args, h => by
      cases base with
      | declared family name params =>
          simp only [legible, Bool.and_eq_true] at h
          rw [Ty.instantiate, Ty.instantiate, instantiateAll_closed s args h.2]
          rfl
      | _ => simpa using isAtom_cases h
  | .nullable inner, h => by
      simp only [legible, Bool.and_eq_true] at h
      rw [Ty.instantiate, instantiate_closed s inner h.2]
  | .anyOf members, h => by
      simp only [legible, Bool.and_eq_true] at h
      rw [Ty.instantiate, instantiateAll_closed s members h.2]
  | .function ⟨generics, params, result, wheres⟩, h => by
      match generics, wheres with
      | [], [] =>
          simp only [legible, Bool.and_eq_true] at h
          rw [Ty.instantiate, Ty.instantiateSignature, instantiateAll_closed s params h.1,
            instantiate_closed s result h.2]
          rfl
      | _ :: _, _ => simpa using isAtom_cases h
      | [], _ :: _ => simpa using isAtom_cases h
  | .unary _ arg, h => by
      simp only [legible] at h
      rw [Ty.instantiate, instantiate_closed s arg h]
  | .map key value, h => by
      simp only [legible, Bool.and_eq_true] at h
      rw [Ty.instantiate, instantiate_closed s key h.1, instantiate_closed s value h.2]
  | .overload _, h => by simpa using isAtom_cases h
  | .unknown, _ | .scalar _, _ | .declared _ _ _, _ => rfl
theorem instantiateAll_closed (s : Substitution) : (ts : List Ty) → V.allLegible true ts = true →
    Ty.instantiateAll s ts = ts
  | [], _ => rfl
  | t :: ts, h => by
      simp only [allLegible, Bool.and_eq_true] at h
      rw [Ty.instantiateAll, instantiate_closed s t h.1, instantiateAll_closed s ts h.2]
end

section Instances

variable {s : Substitution}

mutual
-- Where a question mark or a stroke stands there are no parameters, and so instances are
-- legible if what they put for the parameters is.
theorem legible_instantiate (hs : s.Values V.IsParam V.Legible) : (t : Ty) → V.Legible t →
    V.Legible (t.instantiate s)
  | .param name, h => by
      rw [Ty.instantiate]
      cases hget : s.get? name with
      | none => exact h
      | some value =>
          have hname : V.IsParam name := by
            simp only [Legible, legible, Bool.and_eq_true, decide_eq_true_eq] at h
            exact h.2
          exact hs name value hname hget
  | .alias name target, h => by
      have hclosed : V.legible true (.alias name target) = true := h
      rwa [instantiate_closed s _ hclosed]
  | .nullable inner, h => by
      have hclosed : V.legible true (.nullable inner) = true := h
      rwa [instantiate_closed s _ hclosed]
  | .anyOf members, h => by
      have hclosed : V.legible true (.anyOf members) = true := h
      rwa [instantiate_closed s _ hclosed]
  | .inst name (arg :: args), h => by
      simp only [Legible, legible, Bool.and_eq_true] at h
      have harg := legible_instantiate hs arg h.1.2
      have hargs := allLegible_instantiate hs args h.2
      have hlength : (Ty.instantiateAll s args).length = args.length := by simp
      rw [Ty.instantiate, Ty.instantiateAll, Legible, legible, hlength]
      simp only [Bool.and_eq_true]
      exact ⟨⟨h.1.1, harg⟩, hargs⟩
  | .applied base args, h => by
      cases base with
      | declared family name params =>
          simp only [Legible, legible, Bool.and_eq_true] at h
          have hargs := allLegible_instantiate hs args h.2
          have hlength : (Ty.instantiateAll s args).length = args.length := by simp
          show V.legible false
            (.applied (.declared family name params) (Ty.instantiateAll s args)) = true
          rw [legible, hlength]
          simp only [Bool.and_eq_true]
          exact ⟨h.1, hargs⟩
      | _ => simpa using isAtom_cases h
  | .function ⟨generics, params, result, wheres⟩, h => by
      match generics, wheres with
      | [], [] =>
          simp only [Legible, legible, Bool.and_eq_true] at h
          have hparams := allLegible_instantiate hs params h.1
          have hresult := legible_instantiate hs result h.2
          rw [Ty.instantiate, Ty.instantiateSignature, Ty.instantiateParams, Ty.instantiateWheres,
            Legible, legible, Bool.and_eq_true]
          exact ⟨hparams, hresult⟩
      | _ :: _, _ => simpa using isAtom_cases h
      | [], _ :: _ => simpa using isAtom_cases h
  | .unary _ arg, h => by
      simp only [Legible, legible] at h
      have harg := legible_instantiate hs arg h
      rwa [Ty.instantiate, Legible, legible]
  | .map key value, h => by
      simp only [Legible, legible, Bool.and_eq_true] at h
      have hkey := legible_instantiate hs key h.1
      have hvalue := legible_instantiate hs value h.2
      rw [Ty.instantiate, Legible, legible, Bool.and_eq_true]
      exact ⟨hkey, hvalue⟩
  | .overload _, h => by simpa using isAtom_cases h
  | .unknown, h | .scalar _, h | .declared _ _ _, h | .inst _ [], h => h
theorem allLegible_instantiate (hs : s.Values V.IsParam V.Legible) : (ts : List Ty) →
    V.allLegible false ts = true → V.allLegible false (Ty.instantiateAll s ts) = true
  | [], _ => rfl
  | t :: ts, h => by
      simp only [allLegible, Bool.and_eq_true] at h
      have hfirst := legible_instantiate hs t h.1
      have hrest := allLegible_instantiate hs ts h.2
      rw [Ty.instantiateAll, allLegible, Bool.and_eq_true]
      exact ⟨hfirst, hrest⟩
end

theorem legible_substitute (hs : s.Values V.IsParam V.Legible) {t : Ty} (h : V.Legible t) :
    V.Legible (t.substitute s) := by
  rw [Ty.substitute]
  split
  · exact h
  · exact legible_instantiate hs t h

end Instances

section Parts

theorem legible_resolveAlias {t : Ty} (h : V.Legible t) : V.Legible t.resolveAlias := by
  fun_induction Ty.resolveAlias t with
  | case1 name target ih =>
      simp only [Legible, legible, Bool.and_eq_true] at h
      exact ih (legible_of_closed target h.2)
  | case2 t => exact h

theorem legible_args : (t : Ty) → V.Legible t → {n : Nominal} → t.nominal? = some n →
    ∀ arg ∈ n.args, V.Legible arg
  | .declared _ _ _, _, n, hn => by
      obtain rfl := Option.some.inj hn
      simp
  | .inst _ [], _, n, hn => by
      obtain rfl := Option.some.inj hn
      simp
  | .inst _ (arg :: args), h, n, hn => by
      obtain rfl := Option.some.inj hn
      simp only [Legible, legible, Bool.and_eq_true, allLegible_iff] at h
      simpa using ⟨h.1.2, h.2⟩
  | .applied base args, h, n, hn => by
      cases base with
      | declared family name params =>
          obtain rfl := Option.some.inj hn
          simp only [Legible, legible, Bool.and_eq_true, allLegible_iff] at h
          exact h.2
      | _ => simpa using isAtom_cases h
  | .alias _ target, h, n, hn => by
      simp only [Legible, legible, Bool.and_eq_true] at h
      exact legible_args target (legible_of_closed target h.2) hn
  | .nullable inner, h, n, hn => by
      obtain rfl := Option.some.inj hn
      simp only [Legible, legible, Bool.and_eq_true] at h
      simpa [Legible] using legible_of_closed inner h.2
  | .unary _ arg, h, n, hn => by
      obtain rfl := Option.some.inj hn
      simp only [Legible, legible] at h
      simpa [Legible] using h
  | .map key value, h, n, hn => by
      obtain rfl := Option.some.inj hn
      simp only [Legible, legible, Bool.and_eq_true] at h
      simpa [Legible] using h

theorem legible_hereditary : Hereditary V.Legible where
  unknown := legible_unknown
  resolveAlias := legible_resolveAlias
  args := fun h hn => legible_args _ h hn
  members := by
    intro members h
    simp only [Legible, legible, Bool.and_eq_true, allLegible_iff] at h
    exact fun t ht => legible_of_closed t (h.2 t ht)
  params := by
    rintro ⟨generics, params, result, wheres⟩ h
    match generics, wheres with
    | [], [] =>
        simp only [Legible, legible, Bool.and_eq_true, allLegible_iff] at h
        exact h.1
    | _ :: _, _ => simpa using isAtom_cases h
    | [], _ :: _ => simpa using isAtom_cases h
  result := by
    rintro ⟨generics, params, result, wheres⟩ h
    match generics, wheres with
    | [], [] =>
        simp only [Legible, legible, Bool.and_eq_true] at h
        exact h.2
    | _ :: _, _ => simpa using isAtom_cases h
    | [], _ :: _ => simpa using isAtom_cases h

theorem legible_asInterface? {t : Ty} (h : V.Legible t) {name : String} {args : List Ty}
    (hview : t.asInterface? = some (name, args)) : ∀ arg ∈ args, V.Legible arg := by
  have hresolved := legible_resolveAlias h
  rw [Ty.asInterface?] at hview
  generalize t.resolveAlias = actual at hresolved hview
  split at hview
  · obtain ⟨-, rfl⟩ : _ = name ∧ [] = args := by simpa using hview
    simp
  · rename_i base own
    cases base with
    | declared family base params =>
        cases family with
        | interface =>
            obtain ⟨-, rfl⟩ : base = name ∧ own = args := by simpa [Ty.resolveAlias] using hview
            exact legible_args _ hresolved rfl
        | _ => simp [Ty.resolveAlias] at hview
    | _ => simpa using isAtom_cases hresolved
  · cases hview

end Parts

section Completion

variable {s : Substitution} {env : Environment} {subject : Ty}

theorem bindGenerics_values (generics : List (TypeParam Ty)) {args : List Ty}
    (hargs : ∀ arg ∈ args, V.Legible arg) (hs : s.Values V.IsParam V.Legible) :
    (Substitution.bindGenerics generics args s).Values V.IsParam V.Legible := by
  induction generics generalizing args s with
  | nil => exact hs
  | cons generic generics ih =>
      have hvalue : V.Legible ((args.head?.map (Ty.substitute · s)).getD .unknown) := by
        cases args with
        | nil => exact legible_unknown
        | cons arg args => exact legible_substitute hs (hargs arg List.mem_cons_self)
      rw [Substitution.bindGenerics]
      exact ih (fun arg harg => hargs arg (List.mem_of_mem_tail harg))
        (hs.insertIfNew fun _ => hvalue)

-- Constructors are no types of the vocabulary, and so its parameters must not be placeholders
-- for them.
theorem bindConstructors_values {interface : InterfaceDecl}
    (hplaceholders : ∀ name ∈ interface.constructorPlaceholders env, ¬ V.IsParam name)
    (hs : s.Values V.IsParam V.Legible) :
    (Substitution.bindConstructors s env interface subject).Values V.IsParam V.Legible := by
  rw [Substitution.bindConstructors]
  split
  · exact hs
  · generalize interface.constructorPlaceholders env = placeholders at hplaceholders
    induction placeholders generalizing s with
    | nil => exact hs
    | cons name placeholders ih =>
        have hname := hplaceholders name List.mem_cons_self
        rw [List.foldl_cons]
        refine ih ?_ fun other hother => hplaceholders other (List.mem_cons_of_mem _ hother)
        split
        · exact hs.insert fun h => absurd h hname
        · exact hs

theorem complete_values {impl : Implementation}
    (hplaceholders : ∀ name ∈ impl.interface.constructorPlaceholders env, ¬ V.IsParam name)
    (hargs : ∀ arg ∈ impl.args, V.Legible arg) (hsubject : V.Legible subject)
    (hs : s.Values V.IsParam V.Legible) :
    (Substitution.complete s env impl subject).Values V.IsParam V.Legible := by
  have hself : Substitution.Values V.IsParam V.Legible (s.insert "Self" subject) :=
    hs.insert fun _ => hsubject
  have hgenerics := bindGenerics_values impl.interface.generics hargs hself
  exact Substitution.Values.close legible_unknown
    (bindConstructors_values hplaceholders hgenerics) impl.generics

end Completion

section Constraints

variable {env : Environment}

-- The interfaces of an environment have names that are names in texts too.
def NamesInterfaces (env : Environment) : Prop :=
  ∀ name decl, env.lookup? name = some (.interface decl) → isName decl.name = true

theorem namedInterface_legible (henv : NamesInterfaces env) {name : String} {args : List Ty}
    {interface : ConstraintInterface} (h : env.namedInterface name args = .ok interface) :
    isName interface.name = true ∧ interface.args = args := by
  rw [Environment.namedInterface] at h
  split at h
  · rename_i decl hlookup
    obtain rfl := Except.ok.inj h
    exact ⟨henv name decl hlookup, rfl⟩
  · cases h
  · cases h

theorem constraintInterface_legible (henv : NamesInterfaces env) {constraint : Ty}
    (hconstraint : V.Legible constraint) {interface : ConstraintInterface}
    (h : env.constraintInterface constraint = .ok interface) :
    isName interface.name = true ∧ ∀ arg ∈ interface.args, V.Legible arg := by
  have hresolved := legible_resolveAlias hconstraint
  rw [Environment.constraintInterface] at h
  generalize constraint.resolveAlias = actual at hresolved h
  split at h
  · obtain ⟨hname, hargs⟩ := namedInterface_legible henv h
    exact ⟨hname, by simp [hargs]⟩
  · obtain ⟨hname, hargs⟩ := namedInterface_legible henv h
    exact ⟨hname, by simp [hargs]⟩
  · obtain ⟨hname, hargs⟩ := namedInterface_legible henv h
    exact ⟨hname, hargs ▸ legible_args _ hresolved rfl⟩
  · rename_i base args
    have hargs : ∀ arg ∈ args, V.Legible arg := by
      cases base with
      | declared family name params => exact legible_args _ hresolved rfl
      | _ => simpa using isAtom_cases hresolved
    split at h
    · obtain ⟨hname, heq⟩ := namedInterface_legible henv h
      exact ⟨hname, heq ▸ hargs⟩
    · obtain ⟨hname, heq⟩ := namedInterface_legible henv h
      exact ⟨hname, heq ▸ hargs⟩
    · cases h
  · cases h

theorem checkedInterface_legible (henv : NamesInterfaces env) {constraint : Ty}
    (hconstraint : V.Legible constraint) {interface : ConstraintInterface}
    (h : env.checkedInterface constraint = .ok interface) :
    isName interface.name = true ∧ ∀ arg ∈ interface.args, V.Legible arg := by
  rw [Environment.checkedInterface] at h
  split at h
  · cases h
  · rename_i found hfound
    split at h
    · cases h
    · obtain rfl := Except.ok.inj h
      exact constraintInterface_legible henv hconstraint hfound

end Constraints

end Vocabulary

end Conformance
