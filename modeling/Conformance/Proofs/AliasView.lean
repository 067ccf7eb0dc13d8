import Conformance.Proofs.Exploration

namespace Conformance

namespace Ty

mutual
-- A type seen through its aliases. An alias stays where what it stands for is asked for more
-- than itself, as a nullable type, a union, a parameter and an unknown type are. Unions,
-- overload sets and applications of what is no constructor stay as they are written, since
-- they are compared as written.
def unalias : Ty → Ty
  | .alias name target =>
      if target.unalias.isPlain then target.unalias else .alias name target.unalias
  | .inst name args => .inst name (unaliasAll args)
  | .applied base args =>
      .applied (if base.nominal?.isSome then base.unalias else base)
        (if base.nominal?.isSome then unaliasAll args else args)
  | .nullable inner => .nullable inner.unalias
  | .function sig => .function (unaliasSignature sig)
  | .unary constructor arg => .unary constructor arg.unalias
  | .map key value => .map key.unalias value.unalias
  | t => t
def unaliasAll : List Ty → List Ty
  | [] => []
  | t :: ts => t.unalias :: unaliasAll ts
def unaliasSignature : Signature Ty → Signature Ty
  | ⟨generics, params, result, wheres⟩ => ⟨generics, unaliasAll params, result.unalias, wheres⟩
end

@[simp] theorem unaliasAll_eq (ts : List Ty) : unaliasAll ts = ts.map unalias := by
  induction ts with
  | nil => rfl
  | cons t ts ih => simp [unaliasAll, ih]

theorem isPlain_unalias (t : Ty) : t.unalias.isPlain = t.isPlain := by
  cases t with
  | «alias» name target =>
      rw [unalias]
      split
      · assumption
      · rfl
  | _ => simp [unalias, isPlain]

def isAlias : Ty → Bool
  | .alias _ _ => true
  | _ => false

theorem isAlias_resolveAlias (t : Ty) : t.resolveAlias.isAlias = false := by
  fun_induction resolveAlias t with
  | case1 name target ih => exact ih
  | case2 t hnot =>
      cases t with
      | «alias» name target => exact absurd rfl (hnot name target)
      | _ => rfl

theorem resolveAlias_of_not_isAlias {t : Ty} (h : t.isAlias = false) : t.resolveAlias = t := by
  cases t with
  | «alias» name target => simp [isAlias] at h
  | _ => rfl

theorem resolveAlias_resolveAlias (t : Ty) : t.resolveAlias.resolveAlias = t.resolveAlias :=
  resolveAlias_of_not_isAlias (isAlias_resolveAlias t)

theorem isAlias_unalias {t : Ty} (h : t.isAlias = false) : t.unalias.isAlias = false := by
  cases t with
  | «alias» name target => simp [isAlias] at h
  | _ => simp [unalias, isAlias]

theorem resolveAlias_unalias (t : Ty) : t.unalias.resolveAlias = t.resolveAlias.unalias := by
  fun_induction resolveAlias t with
  | case1 name target ih =>
      rw [unalias]
      split
      · exact ih
      · exact ih
  | case2 t hnot =>
      have hself : t.isAlias = false := by
        cases t with
        | «alias» name target => exact absurd rfl (hnot name target)
        | _ => rfl
      exact resolveAlias_of_not_isAlias (isAlias_unalias hself)

theorem nominal?_unalias (t : Ty) :
    t.unalias.nominal? = t.nominal?.map fun n => { n with args := n.args.map unalias } := by
  fun_induction nominal? t with
  | case1 | case2 | case5 | case6 | case7 => simp [unalias, nominal?]
  | case3 base args ih =>
      cases hbase : base.nominal? with
      | none => simp [unalias, nominal?, hbase]
      | some n => simp [unalias, nominal?, ih, hbase]
  | case4 name target ih =>
      rw [unalias]
      split
      · exact ih
      · simpa [nominal?] using ih
  | case8 t => cases t <;> simp_all [unalias, nominal?]

theorem isUnknown_unalias (t : Ty) : t.unalias.isUnknown = t.isUnknown := by
  cases t with
  | «alias» name target =>
      have hplain := isPlain_unalias (.alias name target)
      cases hview : (Ty.alias name target).unalias with
      | unknown => simp [hview, isPlain] at hplain
      | _ => rfl
  | _ => simp [unalias, isUnknown]

theorem isParam_unalias (t : Ty) : t.unalias.isParam = t.isParam := by
  cases t with
  | «alias» name target =>
      have hplain := isPlain_unalias (.alias name target)
      cases hview : (Ty.alias name target).unalias with
      | param _ => simp [hview, isPlain] at hplain
      | _ => rfl
  | _ => simp [unalias, isParam]

theorem nominal?_resolveAlias (t : Ty) : t.resolveAlias.nominal? = t.nominal? := by
  fun_induction resolveAlias t with
  | case1 name target ih => exact ih
  | case2 => rfl

theorem isUnknown_of_nominal? {t : Ty} {n : Nominal} (h : t.nominal? = some n) :
    t.resolveAlias.isUnknown = false := by
  rw [← nominal?_resolveAlias] at h
  cases hresolved : t.resolveAlias with
  | unknown => simp [hresolved, nominal?] at h
  | _ => rfl

-- Two types that are no aliases and look the same through the aliases inside them.
inductive Cognate : Ty → Ty → Prop
  | same (t : Ty) : Cognate t t
  | inst (name : String) {xs ys : List Ty} (hargs : xs.map unalias = ys.map unalias) :
      Cognate (.inst name xs) (.inst name ys)
  | applied {x y : Ty} {xs ys : List Ty} (hx : x.nominal?.isSome) (hy : y.nominal?.isSome)
      (hbase : x.unalias = y.unalias) (hargs : xs.map unalias = ys.map unalias) :
      Cognate (.applied x xs) (.applied y ys)
  | nullable {x y : Ty} (hinner : x.unalias = y.unalias) : Cognate (.nullable x) (.nullable y)
  | function {f g : Signature Ty} (hparams : f.params.map unalias = g.params.map unalias)
      (hresult : f.result.unalias = g.result.unalias) : Cognate (.function f) (.function g)
  | unary (constructor : Unary) {x y : Ty} (harg : x.unalias = y.unalias) :
      Cognate (.unary constructor x) (.unary constructor y)
  | map {k l v w : Ty} (hkey : k.unalias = l.unalias) (hvalue : v.unalias = w.unalias) :
      Cognate (.map k v) (.map l w)

theorem cognate_applied {x y : Ty} {xs ys : List Ty}
    (h : (Ty.applied x xs).unalias = (Ty.applied y ys).unalias) :
    Cognate (.applied x xs) (.applied y ys) := by
  have hhead := congrArg (fun t => t.nominal?.isSome) h
  simp only [nominal?_unalias, Option.isSome_map, nominal?] at hhead
  simp only [unalias] at h
  cases hx : x.nominal?.isSome with
  | false =>
      have hy : y.nominal?.isSome = false := by rw [← hhead, hx]
      rw [hx, hy] at h
      obtain ⟨rfl, rfl⟩ : x = y ∧ xs = ys := by simpa using h
      exact .same _
  | true =>
      have hy : y.nominal?.isSome = true := by rw [← hhead, hx]
      simp only [hx, hy, if_true, unaliasAll_eq, Ty.applied.injEq] at h
      exact .applied hx hy h.1 h.2

theorem cognate_function {f g : Signature Ty} (h : unaliasSignature f = unaliasSignature g) :
    Cognate (.function f) (.function g) := by
  obtain ⟨generics, params, result, wheres⟩ := f
  obtain ⟨generics', params', result', wheres'⟩ := g
  simp only [unaliasSignature, unaliasAll_eq, Signature.mk.injEq] at h
  exact .function h.2.1 h.2.2.1

theorem cognate_of_not_isAlias {a b : Ty} (ha : a.isAlias = false) (hb : b.isAlias = false)
    (h : a.unalias = b.unalias) : Cognate a b := by
  -- Looking through aliases keeps the outermost form, so the two types have the same one.
  cases a <;> cases b
  case applied.applied => exact cognate_applied h
  case inst.inst =>
    simp only [unalias, unaliasAll_eq, Ty.inst.injEq] at h
    obtain ⟨rfl, hargs⟩ := h
    exact .inst _ hargs
  case nullable.nullable =>
    simp only [unalias, Ty.nullable.injEq] at h
    exact .nullable h
  case function.function =>
    simp only [unalias, Ty.function.injEq] at h
    exact cognate_function h
  case unary.unary =>
    simp only [unalias, Ty.unary.injEq] at h
    obtain ⟨rfl, harg⟩ := h
    exact .unary _ harg
  case map.map =>
    simp only [unalias, Ty.map.injEq] at h
    exact .map h.1 h.2
  all_goals
    first
    | (cases ha; done)
    | (cases hb; done)
    | (simp only [unalias] at h; cases h; exact .same _)
    | (simp only [unalias] at h; cases h)

theorem cognate_resolveAlias {a b : Ty} (h : a.unalias = b.unalias) :
    Cognate a.resolveAlias b.resolveAlias := by
  refine cognate_of_not_isAlias (isAlias_resolveAlias a) (isAlias_resolveAlias b) ?_
  rw [← resolveAlias_unalias, ← resolveAlias_unalias, h]

theorem equivalent_declared (family : Family) (name : String) (params : List String) (b : Ty) :
    equivalent (.declared family name params) b =
      (b.resolveAlias.isUnknown || b.nominal?.any fun n =>
        name = n.name && .declared family = n.head &&
          (!params.isEmpty || n.bare || n.args.isEmpty)) := by
  rw [equivalent, ← nominal?_resolveAlias b]
  cases b.resolveAlias <;> rfl

theorem equivalent_inst (name : String) (args : List Ty) (b : Ty) :
    equivalent (.inst name args) b =
      (b.resolveAlias.isUnknown || b.nominal?.any fun n =>
        name = n.name && .declared .struct = n.head && (n.bare || allEquivalent args n.args)) := by
  rw [equivalent, ← nominal?_resolveAlias b]
  cases b.resolveAlias <;> rfl

theorem equivalent_unary (constructor : Unary) (arg b : Ty) :
    equivalent (.unary constructor arg) b =
      (b.resolveAlias.isUnknown || b.nominal?.any fun n =>
        n.name = constructor.name && n.head = .builtin &&
          match n.args with
          | [other] => equivalent arg other
          | _ => false) := by
  rw [equivalent, ← nominal?_resolveAlias b]
  cases b.resolveAlias <;> rfl

theorem equivalent_map (key value b : Ty) :
    equivalent (.map key value) b =
      (b.resolveAlias.isUnknown || b.nominal?.any fun n =>
        n.name = "Map" && n.head = .builtin &&
          match n.args with
          | [otherKey, otherValue] => equivalent key otherKey && equivalent value otherValue
          | _ => false) := by
  rw [equivalent, ← nominal?_resolveAlias b]
  cases b.resolveAlias <;> rfl

theorem equivalent_nullable (inner b : Ty) :
    equivalent (.nullable inner) b =
      (b.resolveAlias.isUnknown || b.nominal?.any fun n =>
        n.name = "?" && n.head = .nullable &&
          match n.args with
          | [other] => equivalent inner other
          | _ => false) := by
  rw [equivalent, ← nominal?_resolveAlias b]
  cases b.resolveAlias with
  | nullable other => simp [isUnknown, nominal?]
  | _ => rfl

theorem equivalent_applied {base : Ty} {head : Nominal} (hbase : base.nominal? = some head)
    (args : List Ty) (b : Ty) :
    equivalent (.applied base args) b =
      (b.resolveAlias.isUnknown || b.nominal?.any fun n =>
        head.sameHead n && (n.bare || allEquivalent args n.args)) := by
  rw [equivalent, hbase, ← nominal?_resolveAlias b]
  cases hb : b.resolveAlias with
  | applied other args' =>
      cases hother : other.nominal? with
      | none =>
          have hne : base ≠ other := by
            rintro rfl
            simp [hbase] at hother
          simp [isUnknown, nominal?, hother, hne]
      | some n => simp [isUnknown, nominal?, hother]
  | «alias» name target =>
      have hnot := isAlias_resolveAlias b
      simp [hb, isAlias] at hnot
  | _ => simp [isUnknown, nominal?]

theorem equivalent_applied_open {base : Ty} (hbase : base.nominal? = none) (args : List Ty)
    (b : Ty) :
    equivalent (.applied base args) b =
      (b.resolveAlias.isUnknown || .applied base args = b.resolveAlias) := by
  rw [equivalent, hbase]
  cases b.resolveAlias <;> simp [isUnknown]

-- A type that is no application of a constructor stays as it is written.
theorem unalias_eq_applied_iff {c base : Ty} (hc : c.isAlias = false) (hbase : base.nominal? = none)
    (args : List Ty) : Ty.applied base args = c.unalias ↔ Ty.applied base args = c := by
  have hself : (Ty.applied base args).unalias = .applied base args := by simp [unalias, hbase]
  constructor
  · intro h
    have hcognate :=
      cognate_of_not_isAlias (a := .applied base args) (b := c) rfl hc (hself.trans h)
    cases hcognate with
    | same => rfl
    | applied hx => simp [hbase] at hx
  · rintro rfl
    exact hself.symm

mutual
-- Equivalence looks through aliases wherever they stand.
theorem equivalent_unalias : (a b : Ty) → equivalent a.unalias b.unalias = equivalent a b
  | .alias name target, b => by
      have ih := equivalent_unalias target b
      rw [unalias, equivalent, ← ih]
      split
      · rfl
      · rw [equivalent]
  | .unknown, b => by simp [unalias, equivalent]
  | .scalar _, b | .param _, b | .anyOf _, b | .overload _, b => by
      have hb := isAlias_resolveAlias b
      simp only [unalias, equivalent, resolveAlias_unalias]
      generalize b.resolveAlias = c at hb ⊢
      cases c with
      | «alias» => cases hb
      | _ => simp [unalias]
  | .function sig, b => by
      have hb := isAlias_resolveAlias b
      simp only [unalias, equivalent, resolveAlias_unalias]
      generalize b.resolveAlias = c at hb ⊢
      cases c with
      | «alias» => cases hb
      | function other => simp [unalias, signaturesEquivalent_unalias sig other]
      | _ => simp [unalias]
  | .declared _ _ _, b => by
      simp only [unalias, equivalent_declared, resolveAlias_unalias, isUnknown_unalias,
        nominal?_unalias]
      cases b.nominal? <;> simp
  | .inst _ args, b => by
      simp only [unalias, equivalent_inst, resolveAlias_unalias, isUnknown_unalias,
        nominal?_unalias, unaliasAll_eq]
      cases b.nominal? <;> simp [allEquivalent_unalias args]
  | .applied base args, b => by
      cases hbase : base.nominal? with
      | none =>
          have hsame : (Ty.applied base args).unalias = .applied base args := by
            simp [unalias, hbase]
          rw [hsame, equivalent_applied_open hbase, equivalent_applied_open hbase,
            resolveAlias_unalias, isUnknown_unalias]
          simp [unalias_eq_applied_iff (isAlias_resolveAlias b) hbase]
      | some head =>
          have hview : base.unalias.nominal? =
              some { head with args := head.args.map unalias } := by
            simp [nominal?_unalias, hbase]
          simp only [unalias, hbase, Option.isSome_some, if_true, equivalent_applied hbase,
            equivalent_applied hview, resolveAlias_unalias, isUnknown_unalias,
            nominal?_unalias, unaliasAll_eq]
          cases b.nominal? <;> simp [allEquivalent_unalias args, Nominal.sameHead]
  | .nullable inner, b => by
      simp only [unalias, equivalent_nullable, resolveAlias_unalias, isUnknown_unalias,
        nominal?_unalias]
      cases b.nominal? with
      | none => simp
      | some n =>
          obtain ⟨name, head, args, bare⟩ := n
          rcases args with _ | ⟨x, _ | ⟨y, ys⟩⟩ <;> simp [equivalent_unalias inner]
  | .unary _ arg, b => by
      simp only [unalias, equivalent_unary, resolveAlias_unalias, isUnknown_unalias,
        nominal?_unalias]
      cases b.nominal? with
      | none => simp
      | some n =>
          obtain ⟨name, head, args, bare⟩ := n
          rcases args with _ | ⟨x, _ | ⟨y, ys⟩⟩ <;> simp [equivalent_unalias arg]
  | .map key value, b => by
      simp only [unalias, equivalent_map, resolveAlias_unalias, isUnknown_unalias,
        nominal?_unalias]
      cases b.nominal? with
      | none => simp
      | some n =>
          obtain ⟨name, head, args, bare⟩ := n
          rcases args with _ | ⟨x, _ | ⟨y, _ | ⟨z, zs⟩⟩⟩ <;>
            simp [equivalent_unalias key, equivalent_unalias value]
theorem allEquivalent_unalias : (xs ys : List Ty) →
    allEquivalent (xs.map unalias) (ys.map unalias) = allEquivalent xs ys
  | [], ys => by cases ys <;> simp [allEquivalent]
  | x :: xs, [] => by simp [allEquivalent]
  | x :: xs, y :: ys => by
      simp [allEquivalent, equivalent_unalias x y, allEquivalent_unalias xs ys]
theorem signaturesEquivalent_unalias : (f g : Signature Ty) →
    signaturesEquivalent (unaliasSignature f) (unaliasSignature g) = signaturesEquivalent f g
  | ⟨_, params, result, _⟩, ⟨_, _, _, _⟩ => by
      simp [unaliasSignature, signaturesEquivalent, equivalent_unalias result,
        allEquivalent_unalias params]
end

end Ty

end Conformance
