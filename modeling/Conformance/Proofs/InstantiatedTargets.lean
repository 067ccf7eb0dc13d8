import Conformance.Proofs.Coverage
import Conformance.Proofs.MatchedNames

namespace Conformance

-- A match says what the parameters of its target stand for. With that put in their places the
-- target matches the same subject again, earns at least as much and has nothing left to bind.

namespace Substitution

-- A later substitution binds all that is known in an earlier one, to the same types.
def KeepsKnown (earlier later : Substitution) : Prop :=
  ∀ name t, t.isUnknown = false → earlier.get? name = some t → later.get? name = some t

theorem KeepsKnown.refl (s : Substitution) : KeepsKnown s s := fun _ _ _ h => h

theorem KeepsKnown.trans {first second third : Substitution} (h : KeepsKnown first second)
    (h' : KeepsKnown second third) : KeepsKnown first third :=
  fun name t hknown hbound => h' name t hknown (h name t hknown hbound)

end Substitution

namespace Ty

-- A name is bound only where nothing is known of it.
theorem bindParam_keepsKnown {first s : Substitution} (hs : first.KeepsKnown s) (name : String)
    (t : Ty) : MatchKeeps (first.KeepsKnown ·) (bindParam name t s) := by
  have hopen (h : ∀ bound, s.get? name = some bound → bound.isUnknown = true) :
      first.KeepsKnown (s.insert name t) := by
    intro other bound hknown hbound
    have hlater := hs other bound hknown hbound
    have hne : name ≠ other := by
      rintro rfl
      simp [h bound hlater] at hknown
    rw [Bindings.get?_insert, if_neg hne, hlater]
  cases hget : s.get? name with
  | none =>
      rw [bindParam, hget]
      exact .some (hopen fun bound hbound => by simp [hget] at hbound) 0
  | some bound =>
      rw [bindParam_bound hget]
      split
      · rename_i hunknown
        refine .some (hopen fun other hother => ?_) 0
        obtain rfl : bound = other := by simpa [hget] using hother
        exact hunknown
      · split
        · exact .some hs 0
        · exact .none

theorem bindingKeeps_known (first : Substitution) (names heads : List String) :
    BindingKeeps (fun _ => True) (first.KeepsKnown ·) names heads where
  part name _ t _ _ _ hs := bindParam_keepsKnown hs name t
  head name _ _ _ t _ _ _ _ hs := bindParam_keepsKnown hs name t

theorem unify_keepsKnown {target t : Ty} {s : Substitution} {m : Match}
    (h : unify target t s = some m) : s.KeepsKnown m.substitution :=
  unify_keeps hereditary_true target (bindingKeeps_known s _ _) trivial
    (Substitution.KeepsKnown.refl s) m h

theorem unifyAll_keepsKnown {targets ts : List Ty} {s : Substitution} {m : Match}
    (h : unifyAll targets ts s = some m) : s.KeepsKnown m.substitution :=
  unifyAll_keeps hereditary_true targets (bindingKeeps_known s _ _) (fun _ _ => trivial)
    (Substitution.KeepsKnown.refl s) m h

-- What a name stands for after it was bound to a type says the same as the type.
theorem equivalent_of_bindParam {name : String} {t : Ty} {s final : Substitution} {m : Match}
    (h : bindParam name t s = some m) (ht : t.isUnknown = false)
    (hfinal : m.substitution.KeepsKnown final) :
    m.score = 0 ∧ ∃ value, final.get? name = some value ∧ equivalent value t = true := by
  have hbound (hm : some ⟨s.insert name t, 0⟩ = some m) :
      m.score = 0 ∧ ∃ value, final.get? name = some value ∧ equivalent value t = true := by
    obtain rfl := Option.some.inj hm
    exact ⟨rfl, t, hfinal name t ht (by simp), equivalent_refl t⟩
  cases hget : s.get? name with
  | none =>
      rw [bindParam, hget] at h
      exact hbound h
  | some value =>
      rw [bindParam_bound hget] at h
      split at h
      · exact hbound h
      · split at h
        · rename_i hknown hequivalent
          obtain rfl := Option.some.inj h
          exact ⟨rfl, value, hfinal name value (by simpa using hknown) hget, hequivalent⟩
        · cases h

-- What says the same as a constructor is of that constructor, if it says anything.
theorem nominal?_of_equivalent {a b : Ty} {n : Nominal} (h : equivalent a b = true)
    (ha : a.resolveAlias.isUnknown = false) (hn : b.nominal? = some n) :
    ∃ args bare, a.nominal? = some ⟨n.name, n.head, args, bare⟩ := by
  rw [equivalent_iff_outline, outline_nominal hn] at h
  obtain hnone | hnone | ⟨hroot, -⟩ := h
  · rw [root_eq_none_iff, ha] at hnone
    cases hnone
  · cases hnone
  · exact nominal?_of_root hroot

-- Types that a parameter can come to stand for.
def IsFirm (t : Ty) : Prop := t.isBuilt = true ∧ t.resolveAlias.isUnknown = false

theorem containsUnknown_resolveAlias (t : Ty) :
    t.resolveAlias.containsUnknown = t.containsUnknown := by
  fun_induction Ty.resolveAlias t with
  | case1 name target ih => rw [ih, containsUnknown]
  | case2 t => rfl

theorem containsUnknown_args : {t : Ty} → {n : Nominal} → t.containsUnknown = false →
    t.nominal? = some n → ∀ arg ∈ n.args, arg.containsUnknown = false
  | .declared _ _ _, _, _, hn => by
      obtain rfl := Option.some.inj hn
      simp
  | .inst _ args, _, h, hn => by
      obtain rfl := Option.some.inj hn
      simpa [containsUnknown] using h
  | .alias _ target, _, h, hn => containsUnknown_args (t := target) h hn
  | .applied base args, _, h, hn => by
      obtain ⟨head, -, rfl⟩ := Option.map_eq_some_iff.mp hn
      simp only [containsUnknown, Bool.or_eq_false_iff, anyContainsUnknown_eq,
        List.any_eq_false] at h
      simpa using h.2
  | .nullable inner, _, h, hn | .unary _ inner, _, h, hn => by
      obtain rfl := Option.some.inj hn
      simpa [containsUnknown] using h
  | .map key value, _, h, hn => by
      obtain rfl := Option.some.inj hn
      simpa [containsUnknown] using h

-- Parts of a subject about which nothing is left open, and what takes the place of parts that
-- are missing.
def IsDefinite (t : Ty) : Prop :=
  t.isBuilt = true ∧ (t.isUnknown = true ∨ t.containsUnknown = false)

theorem IsDefinite.isFirm {t : Ty} (h : IsDefinite t) (hknown : t.isUnknown = false) :
    IsFirm t := by
  obtain ⟨hbuilt, hunknown | hcontains⟩ := h
  · simp [hknown] at hunknown
  · refine ⟨hbuilt, ?_⟩
    rw [← containsUnknown_resolveAlias] at hcontains
    cases hresolved : t.resolveAlias with
    | unknown => simp [hresolved, containsUnknown] at hcontains
    | _ => rfl

theorem isDefinite_hereditary : Hereditary IsDefinite where
  unknown := ⟨rfl, .inl rfl⟩
  resolveAlias := by
    rintro t ⟨hbuilt, hunknown | hcontains⟩
    · obtain rfl := eq_unknown_of_isUnknown hunknown
      exact ⟨rfl, .inl rfl⟩
    · exact ⟨isBuilt_resolveAlias hbuilt, .inr (by rwa [containsUnknown_resolveAlias])⟩
  args := by
    rintro t n ⟨hbuilt, hunknown | hcontains⟩ hn arg harg
    · obtain rfl := eq_unknown_of_isUnknown hunknown
      cases hn
    · exact ⟨isBuilt_args hbuilt hn arg harg, .inr (containsUnknown_args hcontains hn arg harg)⟩
  members h := by cases h.1
  params := by
    rintro ⟨_, params, result, _⟩ ⟨hbuilt, hunknown | hcontains⟩ t ht
    · cases hunknown
    · simp only [isBuilt, signatureBuilt, Bool.and_eq_true, allBuilt_iff] at hbuilt
      simp only [containsUnknown, signatureContainsUnknown, Bool.or_eq_false_iff,
        anyContainsUnknown_eq, List.any_eq_false, Bool.not_eq_true] at hcontains
      exact ⟨hbuilt.1 t ht, .inr (hcontains.1 t ht)⟩
  result := by
    rintro ⟨_, params, result, _⟩ ⟨hbuilt, hunknown | hcontains⟩
    · cases hunknown
    · simp only [isBuilt, signatureBuilt, Bool.and_eq_true] at hbuilt
      simp only [containsUnknown, signatureContainsUnknown, Bool.or_eq_false_iff] at hcontains
      exact ⟨hbuilt.2, .inr hcontains.2⟩

-- The arguments that are left open in a constructor do not make it unknown.
theorem IsDefinite.isFirm_constructor {t constructor : Ty} (h : IsDefinite t)
    (hconstructor : t.resolveAlias.constructor? = some constructor) : IsFirm constructor := by
  have hresolved := isDefinite_hereditary.resolveAlias h
  generalize t.resolveAlias = actual at hresolved hconstructor
  cases actual with
  | applied base args =>
      obtain rfl := Option.some.inj hconstructor
      simp only [IsDefinite, isBuilt, Bool.and_eq_true, isConstructor,
        Option.any_eq_true] at hresolved
      obtain ⟨⟨⟨⟨head, hbase, -⟩, hbuilt⟩, -⟩, -⟩ := hresolved
      exact ⟨hbuilt, isUnknown_of_nominal? hbase⟩
  | inst | unary | map =>
      obtain rfl := Option.some.inj hconstructor
      exact ⟨rfl, rfl⟩
  | _ => cases hconstructor

-- A match of a definite subject binds parameters to firm types only.
theorem unify_isFirm {target t : Ty} {m : Match} (ht : IsDefinite t)
    (h : unify target t ∅ = some m) : m.substitution.Values (fun _ => True) IsFirm := by
  have hbind : BindingKeeps IsDefinite (fun s => s.Values (fun _ => True) IsFirm)
      target.paramNames target.headNames :=
    { part := fun _ _ t s ht hknown hs => bindParam_values (fun _ => ht.isFirm hknown) hs
      head := fun _ _ _ t constructor s ht hconstructor _ hs =>
        bindParam_values (fun _ => ht.isFirm_constructor hconstructor) hs }
  exact unify_keeps isDefinite_hereditary target hbind ht Substitution.Values.empty m h

-- The subject is covered, with no fewer points than were earned before.
def CoversFrom (earned : Nat) (target t : Ty) : Prop :=
  ∃ points, earned ≤ points ∧ Covers target t points

def CoversAllFrom (earned : Nat) (targets ts : List Ty) : Prop :=
  ∃ points, earned ≤ points ∧ CoversAll targets ts points

theorem CoversFrom.of_unknown {target t : Ty} (htarget : target.isParam = false)
    (ht : t.resolveAlias.isUnknown = true) : CoversFrom 0 target t :=
  ⟨0, Nat.le_refl 0, covers_of_unknown htarget ht⟩

theorem isParam_applyTo (base : Ty) (args : List Ty) : (applyTo base args).isParam = false := by
  rw [applyTo.eq_def]
  split <;> rfl

-- Arguments that matched match again, if each of them does.
theorem matchArguments_again {args args' : List Ty} {n : Nominal} {s : Substitution} {m : Match}
    (hlength : args'.length = args.length) (h : matchArguments args n s = some m)
    (hagain : ∀ found, unifyAll args n.args s = some found →
      found.substitution = m.substitution → CoversAllFrom found.score args' n.args) :
    ∃ points, m.score ≤ points ∧ ∀ s, matchArguments args' n s = some ⟨s, points⟩ := by
  cases hbare : n.bare with
  | true =>
      rw [matchArguments_bare hbare] at h
      obtain rfl := Option.some.inj h
      exact ⟨1, Nat.le_refl 1, matchArguments_bare hbare args'⟩
  | false =>
      rw [matchArguments, hbare, if_neg Bool.false_ne_true] at h
      split at h
      · cases h
      · rename_i hroom
        obtain ⟨found, hfound, rfl⟩ := Option.map_eq_some_iff.mp h
        obtain ⟨points, hle, hcovers⟩ := hagain found hfound rfl
        refine ⟨1 + points, Nat.add_le_add_left hle 1, matchArguments_covers hbare ?_ hcovers⟩
        intro hsome
        rw [hlength]
        apply Nat.le_of_not_lt
        intro hless
        refine hroom ⟨?_, hless⟩
        simpa [List.isEmpty_eq_false_iff, ← List.length_eq_zero_iff, hlength] using hsome

theorem isBuilt_getD {ts : List Ty} (h : ∀ t ∈ ts, t.isBuilt = true) (i : Nat) :
    (ts.getD i .unknown).isBuilt = true := by
  rw [List.getD_eq_getElem?_getD]
  cases hget : ts[i]? with
  | none => rfl
  | some t => exact h t (List.mem_of_getElem? hget)

-- An application of any type of the right name and kind covers what its arguments cover.
theorem applyTo_covers {base t : Ty} {args : List Ty} {head n : Nominal} {points : Nat}
    (hbase : base.nominal? = some head) (hn : t.nominal? = some n)
    (hhead : n.sameHead head ∧ n.head ≠ .nullable)
    (h : ∀ s, matchArguments args n s = some ⟨s, points⟩) :
    Covers (applyTo base args) t points := by
  intro s
  rw [unify_applyTo, unify_applied_eq hbase, matchNominal_known hn, if_pos hhead, h s]

section Instances

variable {final : Substitution}

-- What has a constructor of its own is not nullable.
theorem head_ne_nullable {t constructor : Ty} {n : Nominal} (ht : t.isBuilt = true)
    (hn : t.nominal? = some n) (h : t.resolveAlias.constructor? = some constructor) :
    n.head ≠ .nullable := by
  intro hnullable
  obtain ⟨inner, hinner⟩ := resolveAlias_of_nullable ht hn hnullable
  rw [hinner] at h
  cases h

-- A parameter that is applied takes the constructor of the subject. What it comes to stand for
-- says the same as that constructor, and so it is one of the same name and kind.
theorem nominal?_of_bound (hfirm : final.Values (fun _ => True) IsFirm) {name : String}
    {t constructor : Ty} {n : Nominal} (hn : t.nominal? = some n)
    (hconstructor : t.resolveAlias.constructor? = some constructor) {s : Substitution} {m : Match}
    (h : bindParam name constructor s = some m) (hfinal : m.substitution.KeepsKnown final) :
    ∃ value args bare, final.get? name = some value ∧
      value.nominal? = some ⟨n.name, n.head, args, bare⟩ := by
  obtain ⟨-, _, _, hnominal⟩ := nominal?_constructor? hconstructor hn
  obtain ⟨-, value, hvalue, hequivalent⟩ :=
    equivalent_of_bindParam h (isUnknown_constructor? hconstructor hn) hfinal
  obtain ⟨args, bare, hhead⟩ :=
    nominal?_of_equivalent hequivalent (hfirm name value trivial hvalue).2 hnominal
  exact ⟨value, args, bare, hvalue, hhead⟩

-- An applied parameter covers the subject again if its arguments do.
theorem appliedParam_covers (hfirm : final.Values (fun _ => True) IsFirm) {name : String}
    {args : List Ty} {t : Ty} (ht : t.isBuilt = true) {s : Substitution} {m : Match}
    (h : unify (.applied (.param name) args) t s = some m)
    (hfinal : m.substitution.KeepsKnown final)
    (hagain : ∀ n s, t.nominal? = some n → unifyAll args n.args s = some m →
      CoversAllFrom m.score (instantiateAll final args) n.args) :
    CoversFrom m.score ((Ty.applied (.param name) args).instantiate final) t := by
  rw [unify_applied_param] at h
  obtain ⟨hunknown, rfl⟩ | ⟨n, hn, h⟩ := matchNominal_cases h
  · exact .of_unknown (isParam_applyTo _ _) hunknown
  · split at h
    · rename_i hlength
      obtain ⟨constructor, hconstructor, h⟩ := Option.bind_eq_some_iff.mp h
      obtain ⟨bound, hbound, h⟩ := Option.bind_eq_some_iff.mp h
      have hbare := (nominal?_constructor? hconstructor hn).1
      obtain ⟨value, _, _, hvalue, hhead⟩ := nominal?_of_bound hfirm hn hconstructor hbound
        ((unifyAll_keepsKnown h).trans hfinal)
      obtain ⟨points, hle, hcovers⟩ := hagain n _ hn h
      rw [instantiate, instantiate, hvalue, Option.getD_some]
      refine ⟨1 + points, by omega, applyTo_covers hhead hn
        ⟨?_, head_ne_nullable ht hn hconstructor⟩
        (matchArguments_covers hbare (fun _ => ?_) hcovers)⟩
      · simp [Nominal.sameHead]
      · simp [hlength]
    · cases h

-- So does an applied constructor, which stays what it is.
theorem applied_covers {base : Ty} (hbase : base.isParam = false) {args : List Ty} {t : Ty}
    {s : Substitution} {m : Match} (h : unify (.applied base args) t s = some m)
    (hagain : ∀ n found, t.nominal? = some n → unifyAll args n.args s = some found →
      found.substitution = m.substitution →
      CoversAllFrom found.score (instantiateAll final args) n.args) :
    CoversFrom m.score ((Ty.applied base args).instantiate final) t := by
  cases hhead : base.nominal? with
  | none =>
      rw [unify_applied hbase, hhead] at h
      obtain ⟨hunknown, rfl⟩ | ⟨n, hn, h⟩ := matchNominal_cases h
      · exact .of_unknown (isParam_applyTo _ _) hunknown
      · cases h
  | some head =>
      rw [unify_applied_eq hhead] at h
      obtain ⟨hunknown, rfl⟩ | ⟨n, hn, h⟩ := matchNominal_cases h
      · exact .of_unknown (isParam_applyTo _ _) hunknown
      · split at h
        · rename_i hsame
          obtain ⟨points, hle, hcovers⟩ := matchArguments_again (by simp) h
            fun found hfound => hagain n found hn hfound
          exact ⟨points, hle,
            applyTo_covers (nominal?_instantiate final hhead) hn hsame hcovers⟩
        · cases h

-- A nullable target covers the subject again if what it holds covers what it took.
theorem nullable_covers {target t : Ty} {s : Substitution} {m : Match}
    (h : unify (.nullable target) t s = some m)
    (hagain : ∀ u found, u = t.resolveAlias ∨ t.resolveAlias = .nullable u →
      unify target u s = some found → found.substitution = m.substitution →
      CoversFrom found.score (target.instantiate final) u) :
    CoversFrom m.score ((Ty.nullable target).instantiate final) t := by
  rw [unify] at h
  split at h
  · rename_i hunknown
    obtain rfl := Option.some.inj h
    exact .of_unknown rfl (by rw [hunknown]; rfl)
  · rename_i inner hnullable
    obtain ⟨found, hfound, rfl⟩ := Option.map_eq_some_iff.mp h
    obtain ⟨points, hle, hcovers⟩ := hagain inner found (.inr hnullable) hfound rfl
    refine ⟨1 + points, Nat.add_le_add_left hle 1, fun s => ?_⟩
    simp [instantiate, unify, hnullable, hcovers s, Match.addScore]
  · split at h
    · rename_i hnil
      obtain rfl := Option.some.inj h
      refine ⟨0, Nat.le_refl 0, fun s => ?_⟩
      simp [instantiate, unify, hnil, Ty.nil]
    · rename_i hnil
      obtain ⟨found, hfound, rfl⟩ := Option.map_eq_some_iff.mp h
      obtain ⟨points, hle, hcovers⟩ := hagain _ found (.inl rfl) hfound rfl
      refine ⟨0, Nat.le_refl 0, fun s => ?_⟩
      simp [instantiate, unify, hnil, hcovers s, Match.withoutScore]

mutual
-- By induction on the target, and not on the subject: parameters are the only place where the
-- subject is matched again by a type that the target does not have.
theorem instantiate_covers (hfirm : final.Values (fun _ => True) IsFirm) : (target : Ty) →
    target.isUnionFree = true → {t : Ty} → t.isBuilt = true → {s : Substitution} → {m : Match} →
    unify target t s = some m → m.substitution.KeepsKnown final →
    CoversFrom m.score (target.instantiate final) t
  | .unknown, _, _, _, s, m, h, _ => by
      obtain rfl := Option.some.inj h
      exact ⟨0, Nat.le_refl 0, fun s => rfl⟩
  | .param name, _, t, ht, s, m, h, hfinal => by
      rw [unify] at h
      split at h
      · rename_i hunknown
        obtain rfl := Option.some.inj h
        obtain rfl := eq_unknown_of_isUnknown hunknown
        exact ⟨0, Nat.le_refl 0, covers_unknown _⟩
      · rename_i hknown
        obtain ⟨hscore, value, hvalue, hequivalent⟩ :=
          equivalent_of_bindParam h (Bool.eq_false_iff.mpr hknown) hfinal
        obtain ⟨points, hcovers⟩ :=
          covers_of_equivalent value (hfirm name value trivial hvalue).1 ht hequivalent
        rw [instantiate, hvalue, Option.getD_some, hscore]
        exact ⟨points, Nat.zero_le points, hcovers⟩
  | .alias _ target, htarget, t, ht, s, m, h, hfinal => by
      rw [unify] at h
      obtain ⟨points, hle, hcovers⟩ :=
        instantiate_covers hfirm target htarget (isBuilt_resolveAlias ht) h hfinal
      exact ⟨points, hle, fun s => by rw [instantiate, unify, hcovers s]⟩
  | .scalar kind, _, t, _, s, m, h, _ => by
      rw [unify] at h
      split at h
      · rename_i hunknown
        obtain rfl := Option.some.inj h
        exact .of_unknown rfl (by rw [hunknown]; rfl)
      · rename_i other hscalar
        split at h
        · rename_i heq
          obtain rfl := Option.some.inj h
          exact ⟨1, Nat.le_refl 1, fun s => by simp [instantiate, unify, hscalar, heq]⟩
        · cases h
      · cases h
  | .declared family name params, _, t, _, s, m, h, _ => by
      rw [unify_declared] at h
      obtain ⟨hunknown, rfl⟩ | ⟨n, hn, h⟩ := matchNominal_cases h
      · exact .of_unknown rfl hunknown
      · split at h
        · rename_i hhead
          obtain rfl := Option.some.inj h
          refine ⟨1, Nat.le_refl 1, fun s => ?_⟩
          rw [instantiate, unify_declared, matchNominal_known hn, if_pos hhead]
        · cases h
  | .inst name args, htarget, t, ht, s, m, h, hfinal => by
      rw [unify_inst] at h
      obtain ⟨hunknown, rfl⟩ | ⟨n, hn, h⟩ := matchNominal_cases h
      · exact .of_unknown rfl hunknown
      · split at h
        · rename_i hhead
          obtain ⟨points, hle, hcovers⟩ := matchArguments_again (by simp) h
            fun found hfound hsame => instantiateAll_covers hfirm args htarget
              (isBuilt_args ht hn) hfound (hsame ▸ hfinal)
          refine ⟨points, hle, fun s => ?_⟩
          rw [instantiate, unify_inst, matchNominal_known hn, if_pos hhead, hcovers s]
        · cases h
  | .applied base args, htarget, t, ht, s, m, h, hfinal => by
      cases hbase : base.isParam with
      | true =>
          obtain ⟨name, rfl⟩ := eq_param_of_isParam hbase
          exact appliedParam_covers hfirm ht h hfinal fun n s hn hargs =>
            instantiateAll_covers hfirm args htarget (isBuilt_args ht hn) hargs hfinal
      | false =>
          exact applied_covers hbase h fun n found hn hargs hsame =>
            instantiateAll_covers hfirm args htarget (isBuilt_args ht hn) hargs (hsame ▸ hfinal)
  | .nullable target, htarget, t, ht, s, m, h, hfinal => by
      have hbuilt := isBuilt_resolveAlias ht
      refine nullable_covers h fun u found hu hfound hsame => ?_
      have htaken : u.isBuilt = true := by
        rcases hu with rfl | hu
        · exact hbuilt
        · rwa [hu, isBuilt] at hbuilt
      exact instantiate_covers hfirm target htarget htaken hfound (hsame ▸ hfinal)
  | .function sig, htarget, t, ht, s, m, h, hfinal => by
      rw [unify] at h
      split at h
      · rename_i hunknown
        obtain rfl := Option.some.inj h
        exact .of_unknown rfl (by rw [hunknown]; rfl)
      · rename_i own hfunction
        obtain ⟨found, hfound, rfl⟩ := Option.map_eq_some_iff.mp h
        have hbuilt := isBuilt_resolveAlias ht
        rw [hfunction] at hbuilt
        obtain ⟨points, hle, hcovers⟩ :=
          instantiateSignature_covers hfirm sig htarget hbuilt hfound hfinal
        refine ⟨1 + points, Nat.add_le_add_left hle 1, fun s => ?_⟩
        simp [instantiate, unify, hfunction, hcovers s, Match.addScore]
      · cases h
  | .overload sigs, _, t, _, s, m, h, _ => by
      rw [unify] at h
      split at h
      · rename_i hunknown
        obtain rfl := Option.some.inj h
        exact .of_unknown rfl (by rw [hunknown]; rfl)
      · cases h
  | .unary constructor arg, htarget, t, ht, s, m, h, hfinal => by
      rw [unify_unary] at h
      obtain ⟨hunknown, rfl⟩ | ⟨n, hn, h⟩ := matchNominal_cases h
      · exact .of_unknown rfl hunknown
      · split at h
        · rename_i hhead
          obtain ⟨found, hfound, rfl⟩ := Option.map_eq_some_iff.mp h
          obtain ⟨points, hle, hcovers⟩ := instantiate_covers hfirm arg htarget
            (isBuilt_getD (isBuilt_args ht hn) 0) hfound hfinal
          refine ⟨1 + points, Nat.add_le_add_left hle 1, fun s => ?_⟩
          rw [instantiate, unify_unary, matchNominal_known hn, if_pos hhead, hcovers s]
          rfl
        · cases h
  | .map key value, htarget, t, ht, s, m, h, hfinal => by
      rw [isUnionFree, Bool.and_eq_true] at htarget
      rw [unify_map] at h
      obtain ⟨hunknown, rfl⟩ | ⟨n, hn, h⟩ := matchNominal_cases h
      · exact .of_unknown rfl hunknown
      · split at h
        · rename_i hhead
          obtain ⟨found, hfound, h⟩ := Option.bind_eq_some_iff.mp h
          obtain ⟨found', hfound', h⟩ := Option.bind_eq_some_iff.mp h
          obtain rfl := Option.some.inj h
          obtain ⟨points, hle, hcovers⟩ := instantiate_covers hfirm key htarget.1
            (isBuilt_getD (isBuilt_args ht hn) 0) hfound ((unify_keepsKnown hfound').trans hfinal)
          obtain ⟨points', hle', hcovers'⟩ := instantiate_covers hfirm value htarget.2
            (isBuilt_getD (isBuilt_args ht hn) 1) hfound' hfinal
          refine ⟨1 + points + points', ?_, fun s => ?_⟩
          · simp only [Match.addScore]
            omega
          · rw [instantiate, unify_map, matchNominal_known hn, if_pos hhead, hcovers s,
              Option.bind_some, hcovers' s]
            rfl
        · cases h
theorem instantiateAll_covers (hfirm : final.Values (fun _ => True) IsFirm) :
    (targets : List Ty) → allUnionFree targets = true → {ts : List Ty} →
    (∀ t ∈ ts, t.isBuilt = true) → {s : Substitution} → {m : Match} →
    unifyAll targets ts s = some m → m.substitution.KeepsKnown final →
    CoversAllFrom m.score (instantiateAll final targets) ts
  | [], _, _, _, _, _, h, _ => by
      obtain rfl := Option.some.inj h
      exact ⟨0, Nat.le_refl 0, fun s => rfl⟩
  | target :: targets, htargets, ts, hts, s, m, h, hfinal => by
      rw [allUnionFree, Bool.and_eq_true] at htargets
      rw [unifyAll] at h
      obtain ⟨found, hfound, h⟩ := Option.bind_eq_some_iff.mp h
      obtain ⟨found', hfound', h⟩ := Option.bind_eq_some_iff.mp h
      obtain rfl := Option.some.inj h
      obtain ⟨points, hle, hcovers⟩ := instantiate_covers hfirm target htargets.1
        (headD_eq_getD ts .unknown ▸ isBuilt_getD hts 0) hfound
        ((unifyAll_keepsKnown hfound').trans hfinal)
      obtain ⟨points', hle', hcovers'⟩ := instantiateAll_covers hfirm targets htargets.2
        (fun t ht => hts t (List.mem_of_mem_tail ht)) hfound' hfinal
      exact ⟨points + points', Nat.add_le_add hle hle', hcovers.cons hcovers'⟩
theorem instantiateSignature_covers (hfirm : final.Values (fun _ => True) IsFirm) :
    (target : Signature Ty) → signatureUnionFree target = true → {sig : Signature Ty} →
    signatureBuilt sig = true → {s : Substitution} → {m : Match} →
    unifySignature target sig s = some m → m.substitution.KeepsKnown final →
    ∃ points, m.score ≤ points ∧
      ∀ s, unifySignature (instantiateSignature final target) sig s = some ⟨s, points⟩
  | ⟨_, params, result, _⟩, htarget, ⟨_, params', result', _⟩, hsig, s, m, h, hfinal => by
      rw [signatureUnionFree, Bool.and_eq_true] at htarget
      rw [signatureBuilt, Bool.and_eq_true, allBuilt_iff] at hsig
      rw [unifySignature] at h
      split at h
      · rename_i hlength
        obtain ⟨found, hfound, h⟩ := Option.bind_eq_some_iff.mp h
        obtain ⟨found', hfound', h⟩ := Option.bind_eq_some_iff.mp h
        obtain rfl := Option.some.inj h
        obtain ⟨points, hle, hcovers⟩ := instantiateAll_covers hfirm params htarget.1 hsig.1
          hfound ((unify_keepsKnown hfound').trans hfinal)
        obtain ⟨points', hle', hcovers'⟩ := instantiate_covers hfirm result htarget.2 hsig.2
          hfound' hfinal
        refine ⟨points + points', Nat.add_le_add hle hle', fun s => ?_⟩
        rw [instantiateSignature, unifySignature, if_pos (by simpa using hlength), hcovers s]
        simp only [Option.bind_eq_bind, Option.bind_some, hcovers' s]
        rfl
      · cases h
end

end Instances

-- The target with what its parameters were found to stand for covers the subject by itself: it
-- binds nothing, and is no less specific than the target was.
theorem instantiated_target_covers {target subject : Ty} {m : Match}
    (hbuilt : subject.isBuilt = true) (hknown : subject.containsUnknown = false)
    (htarget : target.isUnionFree = true) (h : unify target subject ∅ = some m) :
    ∃ points, m.score ≤ points ∧
      unify (target.substitute m.substitution) subject ∅ = some ⟨∅, points⟩ := by
  rw [substitute]
  split
  · rename_i hempty
    have hnone : m.substitution = ∅ :=
      congrArg Bindings.mk (List.isEmpty_iff.mp hempty)
    refine ⟨m.score, Nat.le_refl _, ?_⟩
    rw [h, ← hnone]
  · have hfirm := unify_isFirm ⟨hbuilt, .inr hknown⟩ h
    obtain ⟨points, hle, hcovers⟩ :=
      instantiate_covers hfirm target htarget hbuilt h (Substitution.KeepsKnown.refl _)
    exact ⟨points, hle, hcovers ∅⟩

namespace Grouping

-- Maps from keys to some container of the same keys.
def groups : Ty := .map (.param "K") (.applied (.param "M") [.param "K"])

def arrays : Ty := .map .string (.unary .array .string)

def found : Substitution :=
  Bindings.ofList [("K", .string), ("M", .unary .array .unknown)]

end Grouping

open Grouping in
-- The constructor that was found is a built-in one, and what it is applied to is contracted.
theorem arrays_cover_arrays :
    arrays.isBuilt = true ∧ arrays.containsUnknown = false ∧ groups.isUnionFree = true ∧
      unify groups arrays ∅ = some ⟨found, 1⟩ ∧ groups.substitute found = arrays ∧
      ∃ points, 1 ≤ points ∧ unify (groups.substitute found) arrays ∅ = some ⟨∅, points⟩ :=
  ⟨rfl, rfl, rfl, rfl, rfl,
    @instantiated_target_covers groups arrays ⟨found, 1⟩ rfl rfl rfl rfl⟩

end Ty

end Conformance
