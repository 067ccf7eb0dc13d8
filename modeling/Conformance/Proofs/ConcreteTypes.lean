import Conformance.Proofs.SettledTypes

namespace Conformance

-- Matching and comparing are two walks over types. Matching takes a missing argument for an
-- unknown one, and a target without arguments for all instances; comparing asks for the same
-- number of arguments. Where every constructor has a fixed number of them, the two agree.

namespace Ty

mutual
-- Types that are written out: without unknown types, parameters, nullable types, unions without
-- a name and overload sets, with a constructor at the head of every application, and with as
-- many arguments for every constructor as it takes.
def isConcrete (arity : String → Head → Nat) : Ty → Bool
  | .scalar _ => true
  | .declared family name params => params.isEmpty && arity name (.declared family) = 0
  | .inst name args => arity name (.declared .struct) = args.length && allConcrete arity args
  | .alias _ target => target.isConcrete arity
  | .applied base args =>
      base.isConstructor && base.isBuilt &&
        base.nominal?.all (fun n => arity n.name n.head = args.length) && allConcrete arity args
  | .function sig => signatureConcrete arity sig
  | .unary constructor arg => arity constructor.name .builtin = 1 && arg.isConcrete arity
  | .map key value => arity "Map" .builtin = 2 && key.isConcrete arity && value.isConcrete arity
  | _ => false
def allConcrete (arity : String → Head → Nat) : List Ty → Bool
  | [] => true
  | t :: ts => t.isConcrete arity && allConcrete arity ts
def signatureConcrete (arity : String → Head → Nat) : Signature Ty → Bool
  | ⟨_, params, result, _⟩ => allConcrete arity params && result.isConcrete arity
end

variable {arity : String → Head → Nat}

@[simp] theorem allConcrete_iff (ts : List Ty) :
    allConcrete arity ts = true ↔ ∀ t ∈ ts, t.isConcrete arity = true := by
  induction ts with
  | nil => simp [allConcrete]
  | cons t ts ih => simp [allConcrete, ih]

theorem isConcrete_resolveAlias (t : Ty) :
    t.resolveAlias.isConcrete arity = t.isConcrete arity := by
  fun_induction Ty.resolveAlias t with
  | case1 name target ih => rw [ih, isConcrete]
  | case2 t => rfl

mutual
theorem isSettled_of_isConcrete : (t : Ty) → t.isConcrete arity = true → t.isSettled = true
  | .scalar _, _ => rfl
  | .declared _ _ params, h => by
      rw [isConcrete, Bool.and_eq_true] at h
      exact h.1
  | .inst _ args, h => by
      rw [isConcrete, Bool.and_eq_true] at h
      exact allSettled_of_allConcrete args h.2
  | .alias _ target, h => isSettled_of_isConcrete target h
  | .applied base args, h => by
      simp only [isConcrete, Bool.and_eq_true] at h
      rw [isSettled, Bool.and_eq_true, Bool.and_eq_true]
      exact ⟨h.1.1, allSettled_of_allConcrete args h.2⟩
  | .function ⟨_, params, result, _⟩, h => by
      rw [isConcrete, signatureConcrete, Bool.and_eq_true] at h
      rw [isSettled, signatureSettled, Bool.and_eq_true]
      exact ⟨allSettled_of_allConcrete params h.1, isSettled_of_isConcrete result h.2⟩
  | .unary _ arg, h => by
      rw [isConcrete, Bool.and_eq_true] at h
      exact isSettled_of_isConcrete arg h.2
  | .map key value, h => by
      simp only [isConcrete, Bool.and_eq_true] at h
      rw [isSettled, Bool.and_eq_true]
      exact ⟨isSettled_of_isConcrete key h.1.2, isSettled_of_isConcrete value h.2⟩
theorem allSettled_of_allConcrete : (ts : List Ty) → allConcrete arity ts = true →
    allSettled ts = true
  | [], _ => rfl
  | t :: ts, h => by
      rw [allConcrete, Bool.and_eq_true] at h
      rw [allSettled, Bool.and_eq_true]
      exact ⟨isSettled_of_isConcrete t h.1, allSettled_of_allConcrete ts h.2⟩
end

-- A nominal view of a concrete type has all its arguments, and they are concrete.
structure IsFull (arity : String → Head → Nat) (n : Nominal) : Prop where
  notBare : n.bare = false
  notNullable : n.head ≠ .nullable
  count : n.args.length = arity n.name n.head
  args : ∀ arg ∈ n.args, arg.isConcrete arity = true

theorem isConcrete_nominal : {t : Ty} → {n : Nominal} → t.isConcrete arity = true →
    t.nominal? = some n → IsFull arity n
  | .declared _ _ params, _, h, hn => by
      obtain rfl := Option.some.inj hn
      simp only [isConcrete, Bool.and_eq_true, decide_eq_true_eq] at h
      exact ⟨by simp [h.1], by simp, h.2.symm, by simp⟩
  | .inst _ args, _, h, hn => by
      obtain rfl := Option.some.inj hn
      simp only [isConcrete, Bool.and_eq_true, decide_eq_true_eq, allConcrete_iff] at h
      exact ⟨rfl, by simp, h.1.symm, h.2⟩
  | .alias _ target, _, h, hn => isConcrete_nominal (t := target) h hn
  | .applied base args, _, h, hn => by
      obtain ⟨head, hbase, rfl⟩ := Option.map_eq_some_iff.mp hn
      simp only [isConcrete, isConstructor, hbase, Bool.and_eq_true, Option.any_some,
        Option.all_some, decide_eq_true_eq, allConcrete_iff] at h
      exact ⟨rfl, h.1.1.1, h.1.2.symm, h.2⟩
  | .unary _ arg, _, h, hn => by
      obtain rfl := Option.some.inj hn
      simp only [isConcrete, Bool.and_eq_true, decide_eq_true_eq] at h
      exact ⟨rfl, by simp, h.1.symm, by simpa using h.2⟩
  | .map key value, _, h, hn => by
      obtain rfl := Option.some.inj hn
      simp only [isConcrete, Bool.and_eq_true, decide_eq_true_eq] at h
      exact ⟨rfl, by simp, h.1.1.symm, by simpa using ⟨h.1.2, h.2⟩⟩

theorem matchNominal_resolveAlias (t : Ty) (s : Substitution) (next : Nominal → Option Match) :
    matchNominal t.resolveAlias s next = matchNominal t s next := by
  rw [matchNominal, matchNominal, resolveAlias_resolveAlias, nominal?_resolveAlias]

-- All targets with a constructor are matched in one way: by head, then by arguments.
theorem unify_nominal : {target : Ty} → {head : Nominal} → target.nominal? = some head →
    head.head ≠ .nullable → (t : Ty) → (s : Substitution) →
    unify target t s = matchNominal t s fun n =>
      if n.sameHead head ∧ n.head ≠ .nullable then matchArguments head.args n s else none
  | .declared family name _, _, hn, _, t, s => by
      obtain rfl := Option.some.inj hn
      rw [unify_declared]
      refine matchNominal_congr fun n _ => ?_
      have harguments : matchArguments [] n s = some ⟨s, 1⟩ := by
        rw [matchArguments]
        split <;> rfl
      rw [harguments]
      by_cases hhead : n.name = name ∧ n.head = .declared family
      · simp [Nominal.sameHead, hhead]
      · rw [if_neg hhead, if_neg fun h => hhead (by simpa [Nominal.sameHead] using h.1)]
  | .inst name args, _, hn, _, t, s => by
      obtain rfl := Option.some.inj hn
      rw [unify_inst]
      refine matchNominal_congr fun n _ => ?_
      by_cases hhead : n.name = name ∧ n.head = .declared .struct
      · simp [Nominal.sameHead, hhead]
      · rw [if_neg hhead, if_neg fun h => hhead (by simpa [Nominal.sameHead] using h.1)]
  | .alias _ target, head, hn, hhead, t, s => by
      have htarget : target.nominal? = some head := hn
      rw [unify, unify_nominal htarget hhead, matchNominal_resolveAlias]
  | .applied base args, _, hn, _, t, s => by
      obtain ⟨head, hbase, rfl⟩ := Option.map_eq_some_iff.mp hn
      exact unify_applied_eq hbase args t s
  | .nullable _, _, hn, hhead, _, _ => by
      obtain rfl := Option.some.inj hn
      exact absurd rfl hhead
  | .unary constructor arg, _, hn, _, t, s => by
      obtain rfl := Option.some.inj hn
      exact (unify_applyTo (.unary constructor arg) [arg] t s).trans (unify_applied_eq rfl _ t s)
  | .map key value, _, hn, _, t, s => by
      obtain rfl := Option.some.inj hn
      exact (unify_applyTo (.map key value) [key, value] t s).trans (unify_applied_eq rfl _ t s)

-- What a target matches, among concrete types, means the same as the target.
def Identifies (arity : String → Head → Nat) (target : Ty) : Prop :=
  ∀ t, t.isConcrete arity = true → ∀ s, (unify target t s).isSome → target.meaning = t.meaning

theorem unifyAll_cons_isSome {target t : Ty} {targets ts : List Ty} {s : Substitution}
    (h : (unifyAll (target :: targets) (t :: ts) s).isSome) :
    (unify target t s).isSome ∧ ∃ s', (unifyAll targets ts s').isSome := by
  rw [unifyAll, List.headD_cons, List.tail_cons] at h
  obtain ⟨found, hfound⟩ := Option.isSome_iff_exists.mp h
  obtain ⟨m, hm, hfound⟩ := Option.bind_eq_some_iff.mp hfound
  obtain ⟨m', hm', -⟩ := Option.bind_eq_some_iff.mp hfound
  exact ⟨Option.isSome_of_eq_some hm, m.substitution, Option.isSome_of_eq_some hm'⟩

-- With as many subjects as targets nothing is taken for unknown.
theorem meanings_of_unifyAll {targets ts : List Ty}
    (h : ∀ target ∈ targets, Identifies arity target) (hts : ∀ t ∈ ts, t.isConcrete arity = true)
    (hlength : ts.length = targets.length) {s : Substitution}
    (hfound : (unifyAll targets ts s).isSome) :
    targets.map meaning = ts.map meaning := by
  induction targets generalizing ts s with
  | nil => rw [List.length_eq_zero_iff.mp hlength]
  | cons target targets ih =>
      obtain ⟨t, ts, rfl⟩ := List.exists_cons_of_length_eq_add_one hlength
      obtain ⟨hfirst, hrest⟩ := List.forall_mem_cons.mp hts
      obtain ⟨hfound, s', hfounds⟩ := unifyAll_cons_isSome hfound
      have hmeaning := h target List.mem_cons_self t hfirst s hfound
      have hmeanings := ih (fun other hother => h other (List.mem_cons_of_mem _ hother)) hrest
        (Nat.succ.inj hlength) hfounds
      rw [List.map_cons, List.map_cons, hmeaning, hmeanings]

theorem identifies_nominal {target : Ty} {head : Nominal} (hhead : target.nominal? = some head)
    (htarget : target.isConcrete arity = true)
    (hargs : ∀ arg ∈ head.args, Identifies arity arg) : Identifies arity target := by
  intro t ht s hfound
  have hfull := isConcrete_nominal htarget hhead
  obtain ⟨m, hm⟩ := Option.isSome_iff_exists.mp hfound
  rw [unify_nominal hhead hfull.notNullable] at hm
  obtain ⟨hunknown, -⟩ | ⟨n, hn, hm⟩ := matchNominal_cases hm
  · rw [isUnknown_of_isSettled (isSettled_of_isConcrete t ht)] at hunknown
    cases hunknown
  · have hfull' := isConcrete_nominal ht hn
    split at hm
    · rename_i hsame
      simp only [Nominal.sameHead, Bool.and_eq_true, decide_eq_true_eq] at hsame
      obtain ⟨⟨hname, hkind⟩, -⟩ := hsame
      have hlength : n.args.length = head.args.length := by
        rw [hfull.count, hfull'.count, hname, hkind]
      rw [matchArguments, hfull'.notBare, if_neg Bool.false_ne_true,
        if_neg (by simp [hlength])] at hm
      obtain ⟨m', hm', -⟩ := Option.map_eq_some_iff.mp hm
      rw [meaning_nominal hhead, meaning_nominal hn, hname, hkind,
        meanings_of_unifyAll hargs hfull'.args hlength (by rw [hm']; rfl)]
    · cases hm

mutual
theorem identifies_of_isConcrete : (target : Ty) → target.isConcrete arity = true →
    Identifies arity target
  | .scalar kind, _ => by
      intro t ht s hfound
      rw [unify] at hfound
      rw [meaning, ← meaning_resolveAlias t]
      split at hfound
      · rename_i hunknown
        have hknown := isUnknown_of_isSettled (isSettled_of_isConcrete t ht)
        rw [hunknown] at hknown
        cases hknown
      · rename_i other hscalar
        split at hfound
        · rename_i heq
          rw [hscalar, meaning, heq]
        · cases hfound
      · cases hfound
  | .declared _ _ _, h => identifies_nominal rfl h (by simp)
  | .inst _ args, h => by
      refine identifies_nominal rfl h (identifies_of_allConcrete args ?_)
      rw [isConcrete, Bool.and_eq_true] at h
      exact h.2
  | .alias _ target, h => by
      intro t ht s hfound
      rw [unify] at hfound
      rw [meaning, ← meaning_resolveAlias t]
      exact identifies_of_isConcrete target h _ (by rwa [isConcrete_resolveAlias]) s hfound
  | .applied base args, h => by
      have hparts := h
      simp only [isConcrete, Bool.and_eq_true, isConstructor, Option.any_eq_true] at hparts
      obtain ⟨⟨⟨⟨head, hbase, -⟩, -⟩, -⟩, hargs⟩ := hparts
      exact identifies_nominal (by rw [nominal?, hbase, Option.map_some]) h
        (identifies_of_allConcrete args hargs)
  | .function ⟨_, params, result, _⟩, h => by
      intro t ht s hfound
      rw [isConcrete, signatureConcrete, Bool.and_eq_true] at h
      rw [unify] at hfound
      rw [meaning, meaningOfSignature, meanings_eq, ← meaning_resolveAlias t]
      rw [← isConcrete_resolveAlias] at ht
      split at hfound
      · rename_i hunknown
        rw [hunknown] at ht
        cases ht
      · rename_i sig hsig
        obtain ⟨_, params', result', _⟩ := sig
        rw [hsig, isConcrete, signatureConcrete, Bool.and_eq_true, allConcrete_iff] at ht
        rw [Option.isSome_map, unifySignature] at hfound
        split at hfound
        · rename_i hlength
          obtain ⟨found, hfound⟩ := Option.isSome_iff_exists.mp hfound
          obtain ⟨m, hm, hfound⟩ := Option.bind_eq_some_iff.mp hfound
          obtain ⟨m', hm', -⟩ := Option.bind_eq_some_iff.mp hfound
          rw [hsig, meaning, meaningOfSignature, meanings_eq,
            meanings_of_unifyAll (identifies_of_allConcrete params h.1) ht.1 hlength
              (by rw [hm]; rfl),
            identifies_of_isConcrete result h.2 result' ht.2 _ (by rw [hm']; rfl)]
        · cases hfound
      · cases hfound
  | .unary _ arg, h => by
      refine identifies_nominal rfl h ?_
      rw [isConcrete, Bool.and_eq_true] at h
      simpa using identifies_of_isConcrete arg h.2
  | .map key value, h => by
      refine identifies_nominal rfl h ?_
      simp only [isConcrete, Bool.and_eq_true] at h
      simpa using ⟨identifies_of_isConcrete key h.1.2, identifies_of_isConcrete value h.2⟩
theorem identifies_of_allConcrete : (targets : List Ty) → allConcrete arity targets = true →
    ∀ target ∈ targets, Identifies arity target
  | [], _ => by simp
  | target :: targets, h => by
      rw [allConcrete, Bool.and_eq_true] at h
      exact List.forall_mem_cons.mpr
        ⟨identifies_of_isConcrete target h.1, identifies_of_allConcrete targets h.2⟩
end

-- Concrete types match exactly if they say the same, and a match binds nothing.
theorem concrete_matches_iff_equivalent {subject target : Ty}
    (hsubject : subject.isConcrete arity = true) (htarget : target.isConcrete arity = true)
    (s : Substitution) :
    ((unify target subject s).isSome ↔ equivalent subject target = true) ∧
      ∀ m, unify target subject s = some m → m.substitution = s := by
  have hsettled := isSettled_of_isConcrete subject hsubject
  have hsettled' := isSettled_of_isConcrete target htarget
  have hcovers (h : target.meaning = subject.meaning) : ∃ points, Covers target subject points :=
    covers_of_equivalent target (isBuilt_of_isSettled target hsettled')
      (isBuilt_of_isSettled subject hsettled)
      ((equivalent_iff_meaning target hsettled' hsettled).mpr h)
  have hsame := identifies_of_isConcrete target htarget subject hsubject s
  rw [equivalent_iff_meaning subject hsettled hsettled']
  refine ⟨⟨fun h => (hsame h).symm, fun h => ?_⟩, fun m hm => ?_⟩
  · obtain ⟨points, hpoints⟩ := hcovers h.symm
    rw [hpoints s]
    rfl
  · obtain ⟨points, hpoints⟩ := hcovers (hsame (by rw [hm]; rfl))
    rw [hpoints s] at hm
    obtain rfl := Option.some.inj hm
    rfl

namespace Couples

def takes (name : String) (_ : Head) : Nat :=
  if name = "Pair" ∨ name = "Map" then 2 else if name = "Array" then 1 else 0

def lookups (point : Ty) : Ty := .function (.plain [point] (.map .string .nil))

-- A pair as a struct with its arguments, which are written through an alias and as a plain name.
def pair : Ty :=
  .inst "Pair" [.alias "Names" (.unary .array .string), lookups (.declared .struct "Point" [])]

-- The same pair as an application, of an alias of the constructor.
def couple : Ty :=
  .applied (.alias "Couple" (.declared .struct "Pair" ["A", "B"]))
    [.applied (.unary .array .unknown) [.string], lookups (.inst "Point" [])]

end Couples

open Couples in
theorem couple_matches_pair :
    pair.isConcrete takes = true ∧ couple.isConcrete takes = true ∧
      equivalent pair couple = true ∧ (unify couple pair ∅).isSome ∧
      ∀ m, unify couple pair ∅ = some m → m.substitution = ∅ := by
  have hpair : pair.isConcrete takes = true := by decide +kernel
  have hcouple : couple.isConcrete takes = true := by decide +kernel
  have hsame : equivalent pair couple = true := by decide +kernel
  obtain ⟨hiff, hbinds⟩ := concrete_matches_iff_equivalent hpair hcouple ∅
  exact ⟨hpair, hcouple, hsame, hiff.mpr hsame, hbinds⟩

end Ty

end Conformance
