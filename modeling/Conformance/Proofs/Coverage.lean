import Conformance.Proofs.MatchedParts
import Conformance.Proofs.TypeOutlines

namespace Conformance

-- A target covers a subject if it matches it and binds nothing, whatever is bound already.
-- Types that say the same cover each other.

namespace Ty

def Covers (target t : Ty) (points : Nat) : Prop :=
  ∀ s, unify target t s = some ⟨s, points⟩

def CoversAll (targets ts : List Ty) (points : Nat) : Prop :=
  ∀ s, unifyAll targets ts s = some ⟨s, points⟩

-- Only a parameter takes its subject as it is written.
theorem unify_resolveAlias {target : Ty} (h : target.isParam = false) (t : Ty)
    (s : Substitution) : unify target t.resolveAlias s = unify target t s := by
  cases target with
  | param => cases h
  | _ => simp only [unify, resolveAlias_resolveAlias]

theorem covers_unknown (target : Ty) : Covers target .unknown 0 := by
  intro s
  fun_induction Ty.resolveAlias target with
  | case1 name target ih =>
      rw [unify]
      exact ih
  | case2 target halias =>
      cases target with
      | «alias» name target => exact absurd rfl (halias name target)
      | _ => simp [unify, resolveAlias, isUnknown]

theorem eq_unknown_of_isUnknown {t : Ty} (h : t.isUnknown = true) : t = .unknown := by
  cases t with
  | unknown => rfl
  | _ => cases h

theorem covers_of_unknown {target t : Ty} (htarget : target.isParam = false)
    (ht : t.resolveAlias.isUnknown = true) : Covers target t 0 := by
  intro s
  rw [← unify_resolveAlias htarget, eq_unknown_of_isUnknown ht]
  exact covers_unknown target s

section Nominal

variable {t : Ty} {n : Nominal} {s : Substitution} {next next' : Nominal → Option Match}

theorem matchNominal_known (hn : t.nominal? = some n) : matchNominal t s next = next n := by
  rw [matchNominal, isUnknown_of_nominal? hn, hn]
  rfl

theorem matchNominal_cases {m : Match} (h : matchNominal t s next = some m) :
    t.resolveAlias.isUnknown = true ∧ m = ⟨s, 0⟩ ∨
      ∃ n, t.nominal? = some n ∧ next n = some m := by
  rw [matchNominal] at h
  split at h
  · rename_i hunknown
    exact .inl ⟨hunknown, (Option.some.inj h).symm⟩
  · cases hn : t.nominal? with
    | none => simp [hn] at h
    | some n => exact .inr ⟨n, rfl, by simpa [hn] using h⟩

theorem matchNominal_congr (h : ∀ n, t.nominal? = some n → next n = next' n) :
    matchNominal t s next = matchNominal t s next' := by
  rw [matchNominal, matchNominal]
  cases hn : t.nominal? with
  | none => rfl
  | some n => simp only [h n hn]

-- Only declared constructors stand without their arguments.
theorem not_bare_of_builtin : {t : Ty} → {n : Nominal} → t.nominal? = some n →
    n.head = .builtin → n.bare = false
  | .declared _ _ _, _, h, hhead => by
      obtain rfl := Option.some.inj h
      cases hhead
  | .alias _ target, _, h, hhead => not_bare_of_builtin (t := target) h hhead
  | .inst _ _, _, h, _ | .nullable _, _, h, _ | .unary _ _, _, h, _ | .map _ _, _, h, _ => by
      obtain rfl := Option.some.inj h
      rfl
  | .applied base _, _, h, _ => by
      obtain ⟨head, -, rfl⟩ := Option.map_eq_some_iff.mp h
      rfl

end Nominal

theorem unifyAll_one (target : Ty) (ts : List Ty) (s : Substitution) :
    unifyAll [target] ts s = unify target (ts.getD 0 .unknown) s := by
  rw [unifyAll, headD_eq_getD]
  cases unify target (ts.getD 0 .unknown) s <;> rfl

theorem unifyAll_two (first second : Ty) (ts : List Ty) (s : Substitution) :
    unifyAll [first, second] ts s = (unify first (ts.getD 0 .unknown) s).bind fun m =>
      (unify second (ts.getD 1 .unknown) m.substitution).map (Match.addScore · m.score) := by
  rw [unifyAll, headD_eq_getD]
  cases unify first (ts.getD 0 .unknown) s with
  | none => rfl
  | some m =>
      have htail : ts.tail.getD 0 .unknown = ts.getD 1 .unknown := by cases ts <;> rfl
      simp only [Option.bind_eq_bind, Option.bind_some, unifyAll_one, htail]
      cases unify second (ts.getD 1 .unknown) m.substitution <;> rfl

-- Built-in constructors are never without arguments, so that only their number is asked for.
theorem matchArguments_builtin {t : Ty} {n : Nominal} (hn : t.nominal? = some n)
    (hhead : n.head = .builtin) {args : List Ty} (hargs : args ≠ []) (s : Substitution) :
    matchArguments args n s = if n.args.length ≤ args.length then
      (unifyAll args n.args s).map (Match.addScore · 1) else none := by
  have hempty : args.isEmpty = false := List.isEmpty_eq_false_iff.mpr hargs
  rw [matchArguments, not_bare_of_builtin hn hhead, hempty]
  by_cases hlength : n.args.length ≤ args.length
  · simp [hlength]
  · simp [hlength, Nat.lt_of_not_le hlength]

-- It makes no difference whether an application of a built-in constructor is contracted.
theorem unify_applyTo (base : Ty) (args : List Ty) (t : Ty) (s : Substitution) :
    unify (applyTo base args) t s = unify (.applied base args) t s := by
  rw [applyTo.eq_def]
  split
  · rename_i constructor inner arg
    rw [unify_unary, unify_applied_eq rfl]
    refine matchNominal_congr fun n hn => ?_
    by_cases hhead : n.name = constructor.name ∧ n.head = .builtin
    · rw [matchArguments_builtin hn hhead.2 (List.cons_ne_nil _ _), unifyAll_one]
      simp [Nominal.sameHead, hhead]
    · rw [if_neg fun h => hhead ⟨h.1, h.2.1⟩, if_neg fun h => hhead (by
        simpa [Nominal.sameHead] using h.1)]
  · rename_i innerKey innerValue key value
    rw [unify_map, unify_applied_eq rfl]
    refine matchNominal_congr fun n hn => ?_
    by_cases hhead : n.name = "Map" ∧ n.head = .builtin
    · rw [matchArguments_builtin hn hhead.2 (List.cons_ne_nil _ _), unifyAll_two]
      simp [Nominal.sameHead, hhead, Option.map_eq_bind, Option.bind_assoc, Match.addScore,
        Nat.add_assoc]
    · rw [if_neg fun h => hhead ⟨h.1, h.2.1⟩, if_neg fun h => hhead (by
        simpa [Nominal.sameHead] using h.1)]
  · rfl

-- What can stand at the head of an application: a declared or a built-in constructor, with or
-- without arguments, and through aliases.
def isConstructor (t : Ty) : Bool := t.nominal?.any fun n => n.head ≠ .nullable

mutual
-- Types that are built from constructors alone: without parameters, unions without a name and
-- overload sets, and with a constructor at the head of every application.
def isBuilt : Ty → Bool
  | .unknown => true
  | .scalar _ => true
  | .param _ => false
  | .declared _ _ _ => true
  | .inst _ args => allBuilt args
  | .anyOf _ => false
  | .alias _ target => target.isBuilt
  | .applied base args => base.isConstructor && base.isBuilt && allBuilt args
  | .nullable inner => inner.isBuilt
  | .function sig => signatureBuilt sig
  | .overload _ => false
  | .unary _ arg => arg.isBuilt
  | .map key value => key.isBuilt && value.isBuilt
def allBuilt : List Ty → Bool
  | [] => true
  | t :: ts => t.isBuilt && allBuilt ts
def signatureBuilt : Signature Ty → Bool
  | ⟨_, params, result, _⟩ => allBuilt params && result.isBuilt
end

@[simp] theorem allBuilt_iff (ts : List Ty) : allBuilt ts = true ↔ ∀ t ∈ ts, t.isBuilt = true := by
  induction ts with
  | nil => simp [allBuilt]
  | cons t ts ih => simp [allBuilt, ih]

theorem isBuilt_resolveAlias : {t : Ty} → t.isBuilt = true → t.resolveAlias.isBuilt = true
  | .alias _ target, h => isBuilt_resolveAlias (t := target) h
  | .unknown, h | .scalar _, h | .param _, h | .declared _ _ _, h | .inst _ _, h | .anyOf _, h
  | .applied _ _, h | .nullable _, h | .function _, h | .overload _, h | .unary _ _, h
  | .map _ _, h => h

theorem isBuilt_args : {t : Ty} → {n : Nominal} → t.isBuilt = true → t.nominal? = some n →
    ∀ arg ∈ n.args, arg.isBuilt = true
  | .declared _ _ _, _, _, hn => by
      obtain rfl := Option.some.inj hn
      simp
  | .inst _ args, _, h, hn => by
      obtain rfl := Option.some.inj hn
      simpa [isBuilt] using h
  | .alias _ target, _, h, hn => isBuilt_args (t := target) h hn
  | .applied base args, _, h, hn => by
      obtain ⟨head, -, rfl⟩ := Option.map_eq_some_iff.mp hn
      simp only [isBuilt, Bool.and_eq_true, allBuilt_iff] at h
      exact h.2
  | .nullable inner, _, h, hn | .unary _ inner, _, h, hn => by
      obtain rfl := Option.some.inj hn
      simpa [isBuilt] using h
  | .map key value, _, h, hn => by
      obtain rfl := Option.some.inj hn
      simpa [isBuilt] using h

-- A built type is nullable only if it is written so.
theorem resolveAlias_of_nullable : {t : Ty} → {n : Nominal} → t.isBuilt = true →
    t.nominal? = some n → n.head = .nullable → ∃ inner, t.resolveAlias = .nullable inner
  | .declared _ _ _, _, _, hn, hhead | .inst _ _, _, _, hn, hhead | .unary _ _, _, _, hn, hhead
  | .map _ _, _, _, hn, hhead => by
      obtain rfl := Option.some.inj hn
      cases hhead
  | .alias _ target, _, h, hn, hhead => resolveAlias_of_nullable (t := target) h hn hhead
  | .applied base _, _, h, hn, hhead => by
      obtain ⟨head, hbase, rfl⟩ := Option.map_eq_some_iff.mp hn
      simp only [isBuilt, Bool.and_eq_true, isConstructor, hbase, Option.any_some,
        decide_eq_true_eq] at h
      exact absurd hhead h.1.1
  | .nullable inner, _, _, _, _ => ⟨inner, rfl⟩

theorem Covers.cons {target : Ty} {targets ts : List Ty} {points rest : Nat}
    (h : Covers target (ts.headD .unknown) points) (hrest : CoversAll targets ts.tail rest) :
    CoversAll (target :: targets) ts (points + rest) := by
  intro s
  rw [unifyAll, h s, Option.bind_eq_bind, Option.bind_some, hrest s]
  rfl

theorem matchArguments_bare {n : Nominal} (h : n.bare = true) (args : List Ty)
    (s : Substitution) : matchArguments args n s = some ⟨s, 1⟩ := by
  rw [matchArguments, h]
  rfl

theorem matchArguments_covers {args : List Ty} {n : Nominal} {points : Nat}
    (hbare : n.bare = false) (hlength : args ≠ [] → n.args.length ≤ args.length)
    (h : CoversAll args n.args points) (s : Substitution) :
    matchArguments args n s = some ⟨s, 1 + points⟩ := by
  have hroom : ¬ (!args.isEmpty ∧ args.length < n.args.length) := by
    rintro ⟨hsome, hless⟩
    have := hlength (by simpa using hsome)
    omega
  rw [matchArguments, hbare, if_neg Bool.false_ne_true, if_neg hroom, h s]
  rfl

-- Arguments that say the same are covered, and a bare constructor is whatever the arguments.
theorem exists_matchArguments {args : List Ty} {n : Nominal}
    (hargs : allEquivalent args n.args = true → ∃ points, CoversAll args n.args points)
    (h : (n.bare || allEquivalent args n.args) = true) :
    ∃ points, ∀ s, matchArguments args n s = some ⟨s, points⟩ := by
  cases hbare : n.bare with
  | true => exact ⟨1, matchArguments_bare hbare args⟩
  | false =>
      have hequivalent : allEquivalent args n.args = true := by simpa [hbare] using h
      obtain ⟨points, hcovers⟩ := hargs hequivalent
      refine ⟨1 + points, matchArguments_covers hbare (fun _ => ?_) hcovers⟩
      exact (length_eq_of_allEquivalent hequivalent).ge

mutual
theorem covers_of_equivalent : (a : Ty) → a.isBuilt = true → {b : Ty} → b.isBuilt = true →
    equivalent a b = true → ∃ points, Covers a b points
  | .unknown, _, _, _, _ => ⟨0, fun _ => by rw [unify]⟩
  | .scalar kind, _, b, _, h => by
      rw [equivalent] at h
      split at h
      · rename_i hunknown
        exact ⟨0, covers_of_unknown rfl (by rw [hunknown]; rfl)⟩
      · rename_i other hscalar
        obtain rfl : kind = other := by simpa using h
        exact ⟨1, fun s => by simp [unify, hscalar]⟩
      · cases h
  | .alias _ target, ha, b, hb, h => by
      rw [equivalent, ← equivalent_resolveAlias] at h
      obtain ⟨points, hcovers⟩ := covers_of_equivalent target ha (isBuilt_resolveAlias hb) h
      exact ⟨points, fun s => by rw [unify, hcovers s]⟩
  | .declared family name params, _, b, _, h => by
      rw [equivalent_declared, Bool.or_eq_true, Option.any_eq_true] at h
      obtain hunknown | ⟨n, hn, h⟩ := h
      · exact ⟨0, covers_of_unknown rfl hunknown⟩
      · simp only [Bool.and_eq_true, decide_eq_true_eq] at h
        refine ⟨1, fun s => ?_⟩
        rw [unify_declared, matchNominal_known hn, if_pos ⟨h.1.1.symm, h.1.2.symm⟩]
  | .inst name args, ha, b, hb, h => by
      rw [equivalent_inst, Bool.or_eq_true, Option.any_eq_true] at h
      obtain hunknown | ⟨n, hn, h⟩ := h
      · exact ⟨0, covers_of_unknown rfl hunknown⟩
      · rw [Bool.and_eq_true] at h
        obtain ⟨hhead, hargs⟩ := h
        simp only [Bool.and_eq_true, decide_eq_true_eq] at hhead
        obtain ⟨points, hcovers⟩ := exists_matchArguments
          (coversAll_of_equivalent args ha (isBuilt_args hb hn)) hargs
        refine ⟨points, fun s => ?_⟩
        rw [unify_inst, matchNominal_known hn, if_pos ⟨hhead.1.symm, hhead.2.symm⟩, hcovers s]
  | .applied base args, ha, b, hb, h => by
      simp only [isBuilt, Bool.and_eq_true, isConstructor, Option.any_eq_true,
        decide_eq_true_eq] at ha
      obtain ⟨⟨⟨head, hbase, hnullable⟩, -⟩, hargsBuilt⟩ := ha
      rw [equivalent_applied hbase, Bool.or_eq_true, Option.any_eq_true] at h
      obtain hunknown | ⟨n, hn, h⟩ := h
      · exact ⟨0, covers_of_unknown rfl hunknown⟩
      · rw [Bool.and_eq_true] at h
        obtain ⟨hhead, hargs⟩ := h
        simp only [Nominal.sameHead, Bool.and_eq_true, decide_eq_true_eq] at hhead
        obtain ⟨points, hcovers⟩ := exists_matchArguments
          (coversAll_of_equivalent args hargsBuilt (isBuilt_args hb hn)) hargs
        refine ⟨points, fun s => ?_⟩
        rw [unify_applied_eq hbase, matchNominal_known hn, if_pos, hcovers s]
        exact ⟨by simp [Nominal.sameHead, hhead], hhead.2 ▸ hnullable⟩
  | .nullable inner, ha, b, hb, h => by
      rw [equivalent_nullable, Bool.or_eq_true, Option.any_eq_true] at h
      obtain hunknown | ⟨n, hn, h⟩ := h
      · exact ⟨0, covers_of_unknown rfl hunknown⟩
      · simp only [Bool.and_eq_true, decide_eq_true_eq] at h
        obtain ⟨other, hother⟩ := resolveAlias_of_nullable hb hn h.1.2
        rw [← nominal?_resolveAlias, hother] at hn
        obtain rfl := Option.some.inj hn
        have hbuilt := isBuilt_resolveAlias hb
        rw [hother, isBuilt] at hbuilt
        obtain ⟨points, hcovers⟩ := covers_of_equivalent inner ha hbuilt h.2
        exact ⟨1 + points, fun s => by simp [unify, hother, hcovers s, Match.addScore]⟩
  | .function sig, ha, b, hb, h => by
      rw [equivalent] at h
      split at h
      · rename_i hunknown
        exact ⟨0, covers_of_unknown rfl (by rw [hunknown]; rfl)⟩
      · rename_i other hfunction
        have hbuilt := isBuilt_resolveAlias hb
        rw [hfunction] at hbuilt
        obtain ⟨points, hcovers⟩ := signature_covers_of_equivalent sig ha hbuilt h
        exact ⟨1 + points, fun s => by simp [unify, hfunction, hcovers s, Match.addScore]⟩
      · cases h
  | .unary constructor arg, ha, b, hb, h => by
      rw [equivalent_unary, Bool.or_eq_true, Option.any_eq_true] at h
      obtain hunknown | ⟨n, hn, h⟩ := h
      · exact ⟨0, covers_of_unknown rfl hunknown⟩
      · simp only [Bool.and_eq_true, decide_eq_true_eq] at h
        obtain ⟨hhead, hargs⟩ := h
        split at hargs
        · rename_i other hn'
          obtain ⟨points, hcovers⟩ := covers_of_equivalent arg ha
            (isBuilt_args hb hn other (by simp [hn'])) hargs
          refine ⟨1 + points, fun s => ?_⟩
          rw [unify_unary, matchNominal_known hn, if_pos ⟨hhead.1, hhead.2, by simp [hn']⟩, hn',
            List.getD_cons_zero, hcovers s]
          rfl
        · cases hargs
  | .map key value, ha, b, hb, h => by
      simp only [isBuilt, Bool.and_eq_true] at ha
      rw [equivalent_map, Bool.or_eq_true, Option.any_eq_true] at h
      obtain hunknown | ⟨n, hn, h⟩ := h
      · exact ⟨0, covers_of_unknown rfl hunknown⟩
      · simp only [Bool.and_eq_true, decide_eq_true_eq] at h
        obtain ⟨hhead, hargs⟩ := h
        split at hargs
        · rename_i otherKey otherValue hn'
          rw [Bool.and_eq_true] at hargs
          obtain ⟨points, hkey⟩ := covers_of_equivalent key ha.1
            (isBuilt_args hb hn otherKey (by simp [hn'])) hargs.1
          obtain ⟨points', hvalue⟩ := covers_of_equivalent value ha.2
            (isBuilt_args hb hn otherValue (by simp [hn'])) hargs.2
          refine ⟨1 + points + points', fun s => ?_⟩
          rw [unify_map, matchNominal_known hn, if_pos ⟨hhead.1, hhead.2, by simp [hn']⟩, hn']
          simp only [List.getD_cons_zero, List.getD_cons_succ, hkey s, hvalue s,
            Option.bind_some]
          rfl
        · cases hargs
theorem coversAll_of_equivalent : (as : List Ty) → allBuilt as = true → {bs : List Ty} →
    (∀ b ∈ bs, b.isBuilt = true) → allEquivalent as bs = true → ∃ points, CoversAll as bs points
  | [], _, _, _, _ => ⟨0, fun _ => by rw [unifyAll]⟩
  | a :: as, ha, bs, hb, h => by
      cases bs with
      | nil => cases h
      | cons b bs =>
          rw [allBuilt, Bool.and_eq_true] at ha
          rw [allEquivalent, Bool.and_eq_true] at h
          obtain ⟨hfirst, hrest⟩ := List.forall_mem_cons.mp hb
          obtain ⟨points, hcovers⟩ := covers_of_equivalent a ha.1 hfirst h.1
          obtain ⟨rest, hcoversAll⟩ := coversAll_of_equivalent as ha.2 hrest h.2
          exact ⟨points + rest, Covers.cons hcovers hcoversAll⟩
theorem signature_covers_of_equivalent : (f : Signature Ty) → signatureBuilt f = true →
    {g : Signature Ty} → signatureBuilt g = true → signaturesEquivalent f g = true →
    ∃ points, ∀ s, unifySignature f g s = some ⟨s, points⟩
  | ⟨_, params, result, _⟩, hf, ⟨_, params', result', _⟩, hg, h => by
      rw [signatureBuilt, Bool.and_eq_true] at hf hg
      rw [signaturesEquivalent, Bool.and_eq_true] at h
      obtain ⟨points, hparams⟩ := coversAll_of_equivalent params hf.1
        ((allBuilt_iff _).mp hg.1) h.1
      obtain ⟨points', hresult⟩ := covers_of_equivalent result hf.2 hg.2 h.2
      refine ⟨points + points', fun s => ?_⟩
      rw [unifySignature, if_pos (length_eq_of_allEquivalent h.1).symm]
      simp only [hparams s, hresult s, Option.bind_eq_bind, Option.bind_some]
      rfl
end

end Ty

end Conformance
