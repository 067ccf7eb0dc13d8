import Conformance.Proofs.Coverage
import Conformance.Proofs.TypeOutlines

namespace Conformance

-- Whether two types say the same is no equivalence in general: what is unknown says the same as
-- everything, and so does a bare constructor for all its applications. Among types that leave
-- nothing open it is one, since there it compares what the types mean.

namespace Ty

-- What a type means, however it is written.
inductive Meaning where
  | scalar (kind : Scalar)
  | node (name : String) (head : Head) (args : List Meaning)
  | function (params : List Meaning) (result : Meaning)
  | other

mutual
def meaning : Ty → Meaning
  | .scalar kind => .scalar kind
  | .declared family name _ => .node name (.declared family) []
  | .inst name args => .node name (.declared .struct) (meanings args)
  | .alias _ target => target.meaning
  | .applied base args =>
      match base.nominal? with
      | some head => .node head.name head.head (meanings args)
      | none => .other
  | .nullable inner => .node "?" .nullable [inner.meaning]
  | .function sig => meaningOfSignature sig
  | .unary constructor arg => .node constructor.name .builtin [arg.meaning]
  | .map key value => .node "Map" .builtin [key.meaning, value.meaning]
  | _ => .other
def meanings : List Ty → List Meaning
  | [] => []
  | t :: ts => t.meaning :: meanings ts
def meaningOfSignature : Signature Ty → Meaning
  | ⟨_, params, result, _⟩ => .function (meanings params) result.meaning
end

@[simp] theorem meanings_eq (ts : List Ty) : meanings ts = ts.map meaning := by
  induction ts with
  | nil => rfl
  | cons t ts ih => simp [meanings, ih]

mutual
-- Built types in which nothing is unknown, and no constructor stands without its arguments.
def isSettled : Ty → Bool
  | .scalar _ => true
  | .declared _ _ params => params.isEmpty
  | .inst _ args => allSettled args
  | .alias _ target => target.isSettled
  | .applied base args => base.isConstructor && base.isBuilt && allSettled args
  | .nullable inner => inner.isSettled
  | .function sig => signatureSettled sig
  | .unary _ arg => arg.isSettled
  | .map key value => key.isSettled && value.isSettled
  | _ => false
def allSettled : List Ty → Bool
  | [] => true
  | t :: ts => t.isSettled && allSettled ts
def signatureSettled : Signature Ty → Bool
  | ⟨_, params, result, _⟩ => allSettled params && result.isSettled
end

@[simp] theorem allSettled_iff (ts : List Ty) :
    allSettled ts = true ↔ ∀ t ∈ ts, t.isSettled = true := by
  induction ts with
  | nil => simp [allSettled]
  | cons t ts ih => simp [allSettled, ih]

theorem isSettled_resolveAlias (t : Ty) : t.resolveAlias.isSettled = t.isSettled := by
  fun_induction Ty.resolveAlias t with
  | case1 name target ih => rw [ih, isSettled]
  | case2 t => rfl

theorem meaning_resolveAlias (t : Ty) : t.resolveAlias.meaning = t.meaning := by
  fun_induction Ty.resolveAlias t with
  | case1 name target ih => rw [ih, meaning]
  | case2 t => rfl

mutual
theorem isBuilt_of_isSettled : (t : Ty) → t.isSettled = true → t.isBuilt = true
  | .scalar _, _ | .declared _ _ _, _ => rfl
  | .inst _ args, h => allBuilt_of_allSettled args h
  | .alias _ target, h => isBuilt_of_isSettled target h
  | .applied base args, h => by
      rw [isSettled, Bool.and_eq_true] at h
      rw [isBuilt, Bool.and_eq_true]
      exact ⟨h.1, allBuilt_of_allSettled args h.2⟩
  | .nullable inner, h => isBuilt_of_isSettled inner h
  | .function ⟨_, params, result, _⟩, h => by
      rw [isSettled, signatureSettled, Bool.and_eq_true] at h
      rw [isBuilt, signatureBuilt, Bool.and_eq_true]
      exact ⟨allBuilt_of_allSettled params h.1, isBuilt_of_isSettled result h.2⟩
  | .unary _ arg, h => isBuilt_of_isSettled arg h
  | .map key value, h => by
      rw [isSettled, Bool.and_eq_true] at h
      rw [isBuilt, Bool.and_eq_true]
      exact ⟨isBuilt_of_isSettled key h.1, isBuilt_of_isSettled value h.2⟩
theorem allBuilt_of_allSettled : (ts : List Ty) → allSettled ts = true → allBuilt ts = true
  | [], _ => rfl
  | t :: ts, h => by
      rw [allSettled, Bool.and_eq_true] at h
      rw [allBuilt, Bool.and_eq_true]
      exact ⟨isBuilt_of_isSettled t h.1, allBuilt_of_allSettled ts h.2⟩
end

theorem isSettled_nominal : {t : Ty} → {n : Nominal} → t.isSettled = true →
    t.nominal? = some n → n.bare = false ∧ ∀ arg ∈ n.args, arg.isSettled = true
  | .declared _ _ params, _, h, hn => by
      obtain rfl := Option.some.inj hn
      simpa [isSettled] using h
  | .inst _ args, _, h, hn => by
      obtain rfl := Option.some.inj hn
      simpa [isSettled] using h
  | .alias _ target, _, h, hn => isSettled_nominal (t := target) h hn
  | .applied base args, _, h, hn => by
      obtain ⟨head, -, rfl⟩ := Option.map_eq_some_iff.mp hn
      rw [isSettled, Bool.and_eq_true, allSettled_iff] at h
      exact ⟨rfl, h.2⟩
  | .nullable inner, _, h, hn | .unary _ inner, _, h, hn => by
      obtain rfl := Option.some.inj hn
      simpa [isSettled] using h
  | .map key value, _, h, hn => by
      obtain rfl := Option.some.inj hn
      simpa [isSettled] using h

theorem meaning_nominal : {t : Ty} → {n : Nominal} → t.nominal? = some n →
    t.meaning = .node n.name n.head (n.args.map meaning)
  | .declared _ _ _, _, hn | .nullable _, _, hn | .unary _ _, _, hn | .map _ _, _, hn => by
      obtain rfl := Option.some.inj hn
      rfl
  | .inst _ args, _, hn => by
      obtain rfl := Option.some.inj hn
      simp [meaning]
  | .alias _ target, _, hn => meaning_nominal (t := target) hn
  | .applied base args, _, hn => by
      obtain ⟨head, hbase, rfl⟩ := Option.map_eq_some_iff.mp hn
      simp [meaning, hbase]

-- A settled type has a constructor, or it is a scalar or a function.
theorem isSettled_cases {t : Ty} (h : t.isSettled = true) :
    (∃ n, t.nominal? = some n) ∨ (∃ kind, t.resolveAlias = .scalar kind) ∨
      ∃ sig, t.resolveAlias = .function sig := by
  rw [← isSettled_resolveAlias] at h
  rw [← nominal?_resolveAlias]
  have halias := isAlias_resolveAlias t
  generalize t.resolveAlias = actual at h halias ⊢
  cases actual with
  | scalar kind => exact .inr (.inl ⟨kind, rfl⟩)
  | function sig => exact .inr (.inr ⟨sig, rfl⟩)
  | applied base args =>
      simp only [isSettled, isConstructor, Bool.and_eq_true, Option.any_eq_true] at h
      obtain ⟨⟨⟨head, hbase, -⟩, -⟩, -⟩ := h
      exact .inl ⟨_, by rw [nominal?, hbase, Option.map_some]⟩
  | declared | inst | nullable | unary | map => exact .inl ⟨_, rfl⟩
  | «alias» => cases halias
  | unknown | param | anyOf | overload => cases h

theorem isUnknown_of_isSettled {t : Ty} (h : t.isSettled = true) :
    t.resolveAlias.isUnknown = false := by
  obtain ⟨n, hn⟩ | ⟨kind, hkind⟩ | ⟨sig, hsig⟩ := isSettled_cases h
  · exact isUnknown_of_nominal? hn
  · rw [hkind]
    rfl
  · rw [hsig]
    rfl

-- The outline of a settled type and the meanings of its parts say what it means.
theorem isSettled_outline {t : Ty} (h : t.isSettled = true) :
    (∃ name head args, t.outline = ⟨some (.constructor name head), args, false⟩ ∧
        t.meaning = .node name head (args.map meaning)) ∨
      (∃ kind, t.outline = ⟨some (.scalar kind), [], false⟩ ∧ t.meaning = .scalar kind) ∨
      ∃ params result, t.outline = ⟨some .function, result :: params, false⟩ ∧
        t.meaning = .function (params.map meaning) result.meaning := by
  obtain ⟨n, hn⟩ | ⟨kind, hkind⟩ | ⟨⟨_, params, result, _⟩, hsig⟩ := isSettled_cases h
  · have hbare := (isSettled_nominal h hn).1
    exact .inl ⟨n.name, n.head, n.args, by rw [outline_nominal hn, hbare], meaning_nominal hn⟩
  · rw [← outline_resolveAlias, ← meaning_resolveAlias, hkind]
    exact .inr (.inl ⟨kind, rfl, rfl⟩)
  · rw [← outline_resolveAlias, ← meaning_resolveAlias, hsig]
    exact .inr (.inr ⟨params, result, rfl, by rw [meaning, meaningOfSignature, meanings_eq]⟩)

theorem meaning_eq_iff_outline {a b : Ty} (ha : a.isSettled = true) (hb : b.isSettled = true) :
    a.meaning = b.meaning ↔ a.outline.root = b.outline.root ∧
      a.outline.parts.map meaning = b.outline.parts.map meaning := by
  obtain ⟨_, _, _, houtline, hmeaning⟩ | ⟨_, houtline, hmeaning⟩ | ⟨_, _, houtline, hmeaning⟩ :=
    isSettled_outline ha <;>
  obtain ⟨_, _, _, houtline', hmeaning'⟩ | ⟨_, houtline', hmeaning'⟩ |
      ⟨_, _, houtline', hmeaning'⟩ := isSettled_outline hb <;>
    simp [houtline, hmeaning, houtline', hmeaning', and_assoc, and_comm]

theorem isSettled_parts {t part : Ty} (h : t.isSettled = true) (hpart : part ∈ t.outline.parts) :
    part.isSettled = true := by
  obtain ⟨n, hn⟩ | ⟨kind, hkind⟩ | ⟨⟨_, params, result, _⟩, hsig⟩ := isSettled_cases h
  · rw [outline_nominal hn] at hpart
    exact (isSettled_nominal h hn).2 part hpart
  · rw [← outline_resolveAlias, hkind] at hpart
    cases hpart
  · rw [← isSettled_resolveAlias, hsig, isSettled, signatureSettled, Bool.and_eq_true,
      allSettled_iff] at h
    rw [← outline_resolveAlias, hsig] at hpart
    obtain rfl | hpart := List.mem_cons.mp hpart
    · exact h.2
    · exact h.1 part hpart

theorem isSettled_known {t : Ty} (h : t.isSettled = true) :
    t.outline.root ≠ none ∧ t.outline.bare = false := by
  obtain ⟨_, _, _, houtline, -⟩ | ⟨_, houtline, -⟩ | ⟨_, _, houtline, -⟩ := isSettled_outline h <;>
    simp [houtline]

theorem allEquivalent_iff_meanings {as bs : List Ty}
    (h : ∀ a ∈ as, ∀ b ∈ bs, (equivalent a b = true ↔ a.meaning = b.meaning)) :
    allEquivalent as bs = true ↔ as.map meaning = bs.map meaning := by
  induction as generalizing bs with
  | nil => cases bs <;> simp [allEquivalent]
  | cons a as ih =>
      cases bs with
      | nil => simp [allEquivalent]
      | cons b bs =>
          have hrest := ih fun a ha b hb => h a (List.mem_cons_of_mem _ ha) b
            (List.mem_cons_of_mem _ hb)
          rw [allEquivalent, Bool.and_eq_true, hrest, List.map_cons, List.map_cons,
            List.cons.injEq, h a List.mem_cons_self b List.mem_cons_self]

theorem equivalent_iff_meaning (a : Ty) (ha : a.isSettled = true) {b : Ty}
    (hb : b.isSettled = true) : equivalent a b = true ↔ a.meaning = b.meaning := by
  induction a using part_induction generalizing b with
  | step a ih =>
      have hparts : allEquivalent a.outline.parts b.outline.parts = true ↔
          a.outline.parts.map meaning = b.outline.parts.map meaning :=
        allEquivalent_iff_meanings fun x hx y hy =>
          ih x hx (isSettled_parts ha hx) (isSettled_parts hb hy)
      obtain ⟨hroot, hbare⟩ := isSettled_known ha
      obtain ⟨hroot', hbare'⟩ := isSettled_known hb
      rw [equivalent_iff_outline, meaning_eq_iff_outline ha hb, hparts]
      simp [hroot, hbare, hroot', hbare']

end Ty

end Conformance
