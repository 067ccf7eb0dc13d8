import Conformance.Proofs.AliasView

namespace Conformance

-- The comparison of two types follows the first and takes the second apart on the way. What it
-- depends on is the same on both sides: the outline of a type, which is its root behind all
-- aliases and the parts that are compared in turn. Seen so, the comparison has no direction.

-- The types of a signature that count when it is compared.
def Signature.positions {τ : Type} (sig : Signature τ) : List τ := sig.result :: sig.params

namespace Ty

-- What a type is without its parts.
inductive Root where
  | scalar (kind : Scalar)
  | param
  | constructor (name : String) (head : Head)
  | anyOf
  | function
  | overload (arities : List Nat)
  -- An application of what is no constructor, which is compared as it is written.
  | written (base : Ty) (args : List Ty)
deriving DecidableEq

structure Outline where
  -- There is none where nothing is known.
  root : Option Root
  parts : List Ty
  -- A bare constructor stands for all its applications, so that parts do not count.
  bare : Bool

def outline (t : Ty) : Outline :=
  match t.nominal? with
  | some n => ⟨some (.constructor n.name n.head), n.args, n.bare⟩
  | none =>
      match t.resolveAlias with
      | .scalar kind => ⟨some (.scalar kind), [], false⟩
      | .param _ => ⟨some .param, [], false⟩
      | .anyOf members => ⟨some .anyOf, members, false⟩
      | .function sig => ⟨some .function, sig.positions, false⟩
      | .overload sigs =>
          ⟨some (.overload (sigs.map fun sig => sig.params.length)),
            sigs.flatMap Signature.positions, false⟩
      | .applied base args => ⟨some (.written base args), [], false⟩
      | _ => ⟨none, [], false⟩

def Outline.agrees (a b : Outline) : Bool :=
  a.root.isNone || b.root.isNone ||
    (a.root = b.root && (a.bare || b.bare || allEquivalent a.parts b.parts))

section Forms

variable {t : Ty} {n : Nominal}

theorem outline_nominal (h : t.nominal? = some n) :
    t.outline = ⟨some (.constructor n.name n.head), n.args, n.bare⟩ := by
  rw [outline, h]

theorem outline_resolveAlias (t : Ty) : t.resolveAlias.outline = t.outline := by
  rw [outline, outline, nominal?_resolveAlias, resolveAlias_resolveAlias]

theorem outline_written {base : Ty} (h : base.nominal? = none) (args : List Ty) :
    (Ty.applied base args).outline = ⟨some (.written base args), [], false⟩ := by
  rw [outline, nominal?, h]
  rfl

-- A type without a constructor is one of a few forms.
theorem resolveAlias_cases (h : t.nominal? = none) :
    t.resolveAlias = .unknown ∨ (∃ kind, t.resolveAlias = .scalar kind) ∨
      (∃ name, t.resolveAlias = .param name) ∨ (∃ members, t.resolveAlias = .anyOf members) ∨
      (∃ sig, t.resolveAlias = .function sig) ∨ (∃ sigs, t.resolveAlias = .overload sigs) ∨
      ∃ base args, t.resolveAlias = .applied base args ∧ base.nominal? = none := by
  have halias := isAlias_resolveAlias t
  rw [← nominal?_resolveAlias] at h
  generalize t.resolveAlias = actual at h halias
  cases actual with
  | applied base args => simpa [nominal?] using h
  | declared | inst | nullable | unary | map => cases h
  | «alias» => cases halias
  | _ => simp

theorem root_eq_none_iff (t : Ty) : t.outline.root = none ↔ t.resolveAlias.isUnknown = true := by
  cases h : t.nominal? with
  | some n => simp [outline_nominal h, isUnknown_of_nominal? h]
  | none =>
      rw [outline, h]
      obtain h | ⟨_, h⟩ | ⟨_, h⟩ | ⟨_, h⟩ | ⟨_, h⟩ | ⟨_, h⟩ | ⟨_, _, h, -⟩ :=
        resolveAlias_cases h <;> simp [h, isUnknown]

theorem nominal?_of_root {name : String} {head : Head}
    (h : t.outline.root = some (.constructor name head)) :
    ∃ args bare, t.nominal? = some ⟨name, head, args, bare⟩ := by
  cases hn : t.nominal? with
  | some n =>
      rw [outline_nominal hn] at h
      cases h
      exact ⟨_, _, rfl⟩
  | none =>
      rw [outline, hn] at h
      obtain hr | ⟨_, hr⟩ | ⟨_, hr⟩ | ⟨_, hr⟩ | ⟨_, hr⟩ | ⟨_, hr⟩ | ⟨_, _, hr, -⟩ :=
        resolveAlias_cases hn <;> simp [hr] at h

end Forms

section Comparison

theorem signaturesEquivalent_eq (f g : Signature Ty) :
    signaturesEquivalent f g = allEquivalent f.positions g.positions := by
  obtain ⟨_, _, _, _⟩ := f
  rw [signaturesEquivalent, Bool.and_comm]
  rfl

theorem allEquivalent_map_iff {α : Type} (f g : α → Ty) (xs : List α) :
    allEquivalent (xs.map f) (xs.map g) = true ↔ ∀ x ∈ xs, (f x).equivalent (g x) = true := by
  induction xs with
  | nil => simp [allEquivalent]
  | cons x xs ih => simp [allEquivalent, ih]

theorem length_eq_of_allEquivalent {xs ys : List Ty} (h : allEquivalent xs ys = true) :
    xs.length = ys.length := by
  induction xs generalizing ys with
  | nil =>
      cases ys with
      | nil => rfl
      | cons _ _ => cases h
  | cons x xs ih =>
      cases ys with
      | nil => cases h
      | cons y ys =>
          rw [allEquivalent, Bool.and_eq_true] at h
          exact congrArg Nat.succ (ih h.2)

theorem allEquivalent_append {xs ys : List Ty} (h : xs.length = ys.length) (xs' ys' : List Ty) :
    allEquivalent (xs ++ xs') (ys ++ ys') = (allEquivalent xs ys && allEquivalent xs' ys') := by
  induction xs generalizing ys with
  | nil =>
      obtain rfl := List.length_eq_zero_iff.mp h.symm
      rfl
  | cons x xs ih =>
      cases ys with
      | nil => cases h
      | cons y ys =>
          simp only [List.cons_append, allEquivalent, ih (Nat.succ.inj h), Bool.and_assoc]

-- Overload sets are compared member by member, so the members have as many parameters.
theorem allSignaturesEquivalent_eq (fs gs : List (Signature Ty)) :
    allSignaturesEquivalent fs gs =
      (decide (fs.map (fun f => f.params.length) = gs.map fun g => g.params.length) &&
        allEquivalent (fs.flatMap Signature.positions) (gs.flatMap Signature.positions)) := by
  induction fs generalizing gs with
  | nil => cases gs <;> simp [allSignaturesEquivalent, allEquivalent]
  | cons f fs ih =>
      cases gs with
      | nil => simp [allSignaturesEquivalent]
      | cons g gs =>
          rw [allSignaturesEquivalent, ih, signaturesEquivalent_eq]
          by_cases hlength : f.params.length = g.params.length
          · have hcount : f.positions.length = g.positions.length := congrArg Nat.succ hlength
            simp [allEquivalent_append hcount, hlength, Bool.and_left_comm]
          · have hpositions : allEquivalent f.positions g.positions = false := by
              rw [← Bool.not_eq_true]
              intro h
              exact hlength (Nat.succ.inj (length_eq_of_allEquivalent h))
            simp [hpositions, hlength]

-- A type with a constructor is compared by the constructor, then by the arguments.
theorem agrees_constructor {a : Ty} {m : Nominal} (h : a.nominal? = some m) (b : Ty) :
    a.outline.agrees b.outline =
      (b.resolveAlias.isUnknown || b.nominal?.any fun n =>
        m.sameHead n && (m.bare || n.bare || allEquivalent m.args n.args)) := by
  cases hb : b.nominal? with
  | some n =>
      simp [outline_nominal h, outline_nominal hb, Outline.agrees, isUnknown_of_nominal? hb,
        Nominal.sameHead]
  | none =>
      rw [Outline.agrees, outline_nominal h, outline, hb]
      obtain hb | ⟨_, hb⟩ | ⟨_, hb⟩ | ⟨_, hb⟩ | ⟨_, hb⟩ | ⟨_, hb⟩ | ⟨_, _, hb, -⟩ :=
        resolveAlias_cases hb <;> simp [hb, isUnknown]

-- Only a declared constructor that stands alone can be bare.
theorem declared_of_bare : {t : Ty} → {n : Nominal} → t.nominal? = some n → n.bare = true →
    n.args = [] ∧ ∃ family, n.head = .declared family
  | .declared family _ _, _, h, _ => by
      obtain rfl := Option.some.inj h
      exact ⟨rfl, family, rfl⟩
  | .alias _ target, _, h, hbare => declared_of_bare (t := target) h hbare
  | .applied base _, _, h, hbare => by
      obtain ⟨head, -, rfl⟩ := Option.map_eq_some_iff.mp h
      cases hbare
  | .inst _ _, _, h, hbare | .nullable _, _, h, hbare | .unary _ _, _, h, hbare
  | .map _ _, _, h, hbare => by
      obtain rfl := Option.some.inj h
      cases hbare

theorem agrees_builtin {a : Ty} {m : Nominal} (h : a.nominal? = some m) (hbare : m.bare = false)
    (hhead : ∀ family, m.head ≠ .declared family) (b : Ty) :
    a.outline.agrees b.outline =
      (b.resolveAlias.isUnknown || b.nominal?.any fun n =>
        n.name = m.name && n.head = m.head && allEquivalent m.args n.args) := by
  rw [agrees_constructor h]
  cases hb : b.nominal? with
  | none => rfl
  | some n =>
      by_cases hsame : m.head = n.head
      · have hfull : n.bare = false := by
          rw [← Bool.not_eq_true]
          intro hn
          obtain ⟨-, family, hn⟩ := declared_of_bare hb hn
          exact hhead family (hsame.trans hn)
        simp [Nominal.sameHead, hbare, hfull, hsame, eq_comm]
      · simp [Nominal.sameHead, hsame, Ne.symm hsame]

theorem equivalent_eq_agrees : (a b : Ty) → equivalent a b = a.outline.agrees b.outline
  | .alias _ target, b => by
      rw [equivalent, equivalent_eq_agrees target b, ← outline_resolveAlias (.alias _ target),
        resolveAlias, outline_resolveAlias]
  | .declared family name params, b => by
      rw [equivalent_declared, agrees_constructor rfl]
      congr 2
      funext n
      cases hargs : n.args <;> simp [Nominal.sameHead, allEquivalent]
  | .inst name args, b => by
      rw [equivalent_inst, agrees_constructor rfl]
      simp only [Nominal.sameHead, Bool.false_or]
  | .nullable inner, b => by
      rw [equivalent_nullable, agrees_builtin rfl rfl (by simp)]
      congr 2
      funext n
      rcases n.args with _ | ⟨y, _ | ⟨y', ys⟩⟩ <;> simp [allEquivalent]
  | .unary constructor arg, b => by
      rw [equivalent_unary, agrees_builtin rfl rfl (by simp)]
      congr 2
      funext n
      rcases n.args with _ | ⟨y, _ | ⟨y', ys⟩⟩ <;> simp [allEquivalent]
  | .map key value, b => by
      rw [equivalent_map, agrees_builtin rfl rfl (by simp)]
      congr 2
      funext n
      rcases n.args with _ | ⟨y, _ | ⟨y', _ | ⟨y'', ys⟩⟩⟩ <;> simp [allEquivalent]
  | .applied base args, b => by
      cases hbase : base.nominal? with
      | some head =>
          rw [equivalent_applied hbase, agrees_constructor (by rw [nominal?, hbase, Option.map_some])]
          simp only [Nominal.sameHead, Bool.false_or]
      | none =>
          rw [equivalent_applied_open hbase, outline_written hbase]
          cases hb : b.nominal? with
          | some n =>
              have hne : Ty.applied base args ≠ b.resolveAlias := by
                intro heq
                rw [← nominal?_resolveAlias, ← heq, nominal?, hbase] at hb
                cases hb
              simp [outline_nominal hb, Outline.agrees, isUnknown_of_nominal? hb, hne]
          | none =>
              rw [outline, hb]
              obtain hb | ⟨_, hb⟩ | ⟨_, hb⟩ | ⟨_, hb⟩ | ⟨_, hb⟩ | ⟨_, hb⟩ | ⟨_, _, hb, -⟩ :=
                resolveAlias_cases hb <;> simp [hb, isUnknown, Outline.agrees, allEquivalent]
  | .unknown, b => by simp [equivalent, outline, nominal?, resolveAlias, Outline.agrees]
  | .scalar _, b | .param _, b | .anyOf _, b | .function _, b | .overload _, b => by
      rw [equivalent]
      cases hb : b.nominal? with
      | some n =>
          rw [outline_nominal hb]
          rw [← nominal?_resolveAlias] at hb
          cases hresolved : b.resolveAlias <;> simp [hresolved, nominal?] at hb <;>
            simp [outline, nominal?, resolveAlias, Outline.agrees]
      | none =>
          rw [outline, outline, hb]
          obtain hb | ⟨_, hb⟩ | ⟨_, hb⟩ | ⟨_, hb⟩ | ⟨_, hb⟩ | ⟨_, hb⟩ | ⟨_, _, hb, -⟩ :=
            resolveAlias_cases hb <;>
            simp [hb, nominal?, resolveAlias, Outline.agrees, allEquivalent,
              signaturesEquivalent_eq, allSignaturesEquivalent_eq]

theorem equivalent_iff_outline (a b : Ty) : equivalent a b = true ↔
    a.outline.root = none ∨ b.outline.root = none ∨
      a.outline.root = b.outline.root ∧ (a.outline.bare = true ∨ b.outline.bare = true ∨
        allEquivalent a.outline.parts b.outline.parts = true) := by
  simp [equivalent_eq_agrees, Outline.agrees, or_assoc]

end Comparison

section Parts

theorem sizeOf_resolveAlias_le (t : Ty) : sizeOf t.resolveAlias ≤ sizeOf t := by
  fun_induction resolveAlias t with
  | case1 name target ih =>
      rw [Ty.alias.sizeOf_spec]
      omega
  | case2 t => exact Nat.le_refl _

theorem sizeOf_lt_of_mem_args : {t : Ty} → {n : Nominal} → t.nominal? = some n →
    ∀ {arg : Ty}, arg ∈ n.args → sizeOf arg < sizeOf t
  | .declared _ _ _, _, h, _, harg => by
      obtain rfl := Option.some.inj h
      cases harg
  | .alias _ target, _, h, _, harg => by
      have hlt := sizeOf_lt_of_mem_args (t := target) h harg
      rw [Ty.alias.sizeOf_spec]
      omega
  | .inst _ args, _, h, arg, harg => by
      obtain rfl := Option.some.inj h
      have hlt : sizeOf arg < sizeOf args := List.sizeOf_lt_of_mem harg
      rw [Ty.inst.sizeOf_spec]
      omega
  | .applied _ args, _, h, arg, harg => by
      obtain ⟨_, -, rfl⟩ := Option.map_eq_some_iff.mp h
      have hlt : sizeOf arg < sizeOf args := List.sizeOf_lt_of_mem harg
      rw [Ty.applied.sizeOf_spec]
      omega
  | .nullable inner, _, h, _, harg | .unary _ inner, _, h, _, harg => by
      obtain rfl := Option.some.inj h
      obtain rfl := List.mem_singleton.mp harg
      simp
  | .map key value, _, h, _, harg => by
      obtain rfl := Option.some.inj h
      simp only [List.mem_cons, List.not_mem_nil, or_false] at harg
      obtain rfl | rfl := harg
      · simp
        omega
      · simp

theorem sizeOf_lt_of_mem_positions {sig : Signature Ty} {t : Ty} (h : t ∈ sig.positions) :
    sizeOf t < sizeOf sig := by
  obtain ⟨generics, params, result, wheres⟩ := sig
  rw [Signature.mk.sizeOf_spec]
  obtain rfl | h := List.mem_cons.mp h
  · omega
  · have hlt : sizeOf t < sizeOf params := List.sizeOf_lt_of_mem h
    omega

theorem sizeOf_lt_of_mem_parts {t part : Ty} (h : part ∈ t.outline.parts) :
    sizeOf part < sizeOf t := by
  cases hn : t.nominal? with
  | some n =>
      rw [outline_nominal hn] at h
      exact sizeOf_lt_of_mem_args hn h
  | none =>
      have hle := sizeOf_resolveAlias_le t
      rw [outline, hn] at h
      obtain hr | ⟨_, hr⟩ | ⟨_, hr⟩ | ⟨members, hr⟩ | ⟨sig, hr⟩ | ⟨sigs, hr⟩ | ⟨_, _, hr, -⟩ :=
        resolveAlias_cases hn <;> simp only [hr, List.not_mem_nil] at h
      · have hlt := List.sizeOf_lt_of_mem h
        rw [hr, Ty.anyOf.sizeOf_spec] at hle
        omega
      · have hlt := sizeOf_lt_of_mem_positions h
        rw [hr, Ty.function.sizeOf_spec] at hle
        omega
      · obtain ⟨sig, hsig, h⟩ := List.mem_flatMap.mp h
        have hlt := sizeOf_lt_of_mem_positions h
        have hlt' := List.sizeOf_lt_of_mem hsig
        rw [hr, Ty.overload.sizeOf_spec] at hle
        omega

-- What holds of a type if it holds of its parts holds of every type.
theorem part_induction {P : Ty → Prop}
    (step : ∀ t, (∀ part ∈ t.outline.parts, P part) → P t) (t : Ty) : P t :=
  step t fun part hpart =>
    have _hlt := sizeOf_lt_of_mem_parts hpart
    part_induction step part
termination_by sizeOf t

end Parts

section Symmetry

variable {a b : Ty} {xs ys : List Ty}

-- Both types are taken as what they are behind their aliases.
theorem equivalent_resolveAlias (a b : Ty) : equivalent a b.resolveAlias = equivalent a b := by
  rw [equivalent_eq_agrees, equivalent_eq_agrees, outline_resolveAlias]

theorem equivalent_refl (t : Ty) : equivalent t t = true := by
  induction t using part_induction with
  | step t ih =>
      rw [equivalent_iff_outline]
      have hparts := (allEquivalent_map_iff id id t.outline.parts).mpr ih
      rw [List.map_id] at hparts
      exact .inr (.inr ⟨rfl, .inr (.inr hparts)⟩)

theorem allEquivalent_refl (ts : List Ty) : allEquivalent ts ts = true := by
  have h := (allEquivalent_map_iff id id ts).mpr fun t _ => equivalent_refl t
  rwa [List.map_id] at h

theorem signaturesEquivalent_refl (sig : Signature Ty) : signaturesEquivalent sig sig = true := by
  rw [signaturesEquivalent_eq]
  exact allEquivalent_refl _

theorem allEquivalent_symm_of (h : ∀ x ∈ xs, ∀ y, equivalent x y = true → equivalent y x = true)
    (hall : allEquivalent xs ys = true) : allEquivalent ys xs = true := by
  induction xs generalizing ys with
  | nil =>
      cases ys with
      | nil => rfl
      | cons => cases hall
  | cons x xs ih =>
      cases ys with
      | nil => cases hall
      | cons y ys =>
          obtain ⟨hx, hxs⟩ := List.forall_mem_cons.mp h
          rw [allEquivalent, Bool.and_eq_true] at hall ⊢
          exact ⟨hx y hall.1, ih hxs hall.2⟩

theorem equivalent_symm (h : equivalent a b = true) : equivalent b a = true := by
  induction a using part_induction generalizing b with
  | step a ih =>
      rw [equivalent_iff_outline] at h ⊢
      obtain h | h | ⟨hroot, h | h | h⟩ := h
      · exact .inr (.inl h)
      · exact .inl h
      · exact .inr (.inr ⟨hroot.symm, .inr (.inl h)⟩)
      · exact .inr (.inr ⟨hroot.symm, .inl h⟩)
      · exact .inr (.inr ⟨hroot.symm, .inr (.inr (allEquivalent_symm_of (fun x hx y => ih x hx) h))⟩)

theorem signaturesEquivalent_comm (f g : Signature Ty) :
    signaturesEquivalent f g = signaturesEquivalent g f := by
  rw [signaturesEquivalent_eq, signaturesEquivalent_eq, Bool.eq_iff_iff]
  exact ⟨allEquivalent_symm_of fun _ _ _ => equivalent_symm,
    allEquivalent_symm_of fun _ _ _ => equivalent_symm⟩

end Symmetry

section Transitivity

mutual
-- Nothing that is compared is unknown, and no constructor stands without its arguments. What is
-- applied counts only by its constructor and is not looked at.
def isFullyTyped : Ty → Bool
  | .unknown => false
  | .scalar _ => true
  | .param _ => true
  | .declared _ _ params => params.isEmpty
  | .inst _ args => allFullyTyped args
  | .anyOf members => allFullyTyped members
  | .alias _ target => target.isFullyTyped
  | .applied _ args => allFullyTyped args
  | .nullable inner => inner.isFullyTyped
  | .function sig => signatureFullyTyped sig
  | .overload sigs => signaturesFullyTyped sigs
  | .unary _ arg => arg.isFullyTyped
  | .map key value => key.isFullyTyped && value.isFullyTyped
def allFullyTyped : List Ty → Bool
  | [] => true
  | t :: ts => t.isFullyTyped && allFullyTyped ts
def signatureFullyTyped : Signature Ty → Bool
  | ⟨_, params, result, _⟩ => allFullyTyped params && result.isFullyTyped
def signaturesFullyTyped : List (Signature Ty) → Bool
  | [] => true
  | sig :: sigs => signatureFullyTyped sig && signaturesFullyTyped sigs
end

@[simp] theorem allFullyTyped_iff (ts : List Ty) :
    allFullyTyped ts = true ↔ ∀ t ∈ ts, t.isFullyTyped = true := by
  induction ts with
  | nil => simp [allFullyTyped]
  | cons t ts ih => simp [allFullyTyped, ih]

theorem signatureFullyTyped_iff (sig : Signature Ty) :
    signatureFullyTyped sig = true ↔ ∀ t ∈ sig.positions, t.isFullyTyped = true := by
  obtain ⟨_, params, result, _⟩ := sig
  simp [signatureFullyTyped, Signature.positions, and_comm]

theorem signaturesFullyTyped_iff (sigs : List (Signature Ty)) :
    signaturesFullyTyped sigs = true ↔
      ∀ t ∈ sigs.flatMap Signature.positions, t.isFullyTyped = true := by
  induction sigs with
  | nil => simp [signaturesFullyTyped]
  | cons sig sigs ih =>
      rw [signaturesFullyTyped, Bool.and_eq_true, ih, signatureFullyTyped_iff, List.flatMap_cons,
        List.forall_mem_append]

theorem isFullyTyped_resolveAlias (t : Ty) : t.resolveAlias.isFullyTyped = t.isFullyTyped := by
  fun_induction Ty.resolveAlias t with
  | case1 name target ih => rw [ih, isFullyTyped]
  | case2 t => rfl

theorem isFullyTyped_nominal : {t : Ty} → {n : Nominal} → t.isFullyTyped = true →
    t.nominal? = some n → n.bare = false ∧ ∀ arg ∈ n.args, arg.isFullyTyped = true
  | .alias _ target, _, h, hn => isFullyTyped_nominal (t := target) h hn
  | .applied base args, _, h, hn => by
      obtain ⟨head, -, rfl⟩ := Option.map_eq_some_iff.mp hn
      rw [isFullyTyped, allFullyTyped_iff] at h
      exact ⟨rfl, h⟩
  | .declared _ _ _, _, h, hn | .inst _ _, _, h, hn | .nullable _, _, h, hn
  | .unary _ _, _, h, hn | .map _ _, _, h, hn => by
      obtain rfl := Option.some.inj hn
      simpa [isFullyTyped] using h

-- In the outline of a fully typed type nothing is left open.
theorem outline_isFullyTyped {t : Ty} (h : t.isFullyTyped = true) :
    t.outline.root ≠ none ∧ t.outline.bare = false ∧
      ∀ part ∈ t.outline.parts, part.isFullyTyped = true := by
  cases hn : t.nominal? with
  | some n =>
      rw [outline_nominal hn]
      exact ⟨by simp, isFullyTyped_nominal h hn⟩
  | none =>
      rw [← isFullyTyped_resolveAlias] at h
      rw [outline, hn]
      obtain hr | ⟨_, hr⟩ | ⟨_, hr⟩ | ⟨members, hr⟩ | ⟨sig, hr⟩ | ⟨sigs, hr⟩ | ⟨_, _, hr, -⟩ :=
        resolveAlias_cases hn <;> rw [hr] at h ⊢
      · cases h
      · simp
      · simp
      · exact ⟨by simp, rfl, (allFullyTyped_iff members).mp h⟩
      · exact ⟨by simp, rfl, (signatureFullyTyped_iff sig).mp h⟩
      · exact ⟨by simp, rfl, (signaturesFullyTyped_iff sigs).mp h⟩
      · simp

variable {a b c : Ty} {xs ys zs : List Ty}

theorem allEquivalent_trans_of
    (h : ∀ x ∈ xs, ∀ y ∈ ys, ∀ z, equivalent x y = true → equivalent y z = true →
      equivalent x z = true)
    (hxy : allEquivalent xs ys = true) (hyz : allEquivalent ys zs = true) :
    allEquivalent xs zs = true := by
  induction xs generalizing ys zs with
  | nil =>
      cases ys with
      | nil => exact hyz
      | cons => cases hxy
  | cons x xs ih =>
      cases ys with
      | nil => cases hxy
      | cons y ys =>
          cases zs with
          | nil => cases hyz
          | cons z zs =>
              rw [allEquivalent, Bool.and_eq_true] at hxy hyz ⊢
              refine ⟨h x List.mem_cons_self y List.mem_cons_self z hxy.1 hyz.1, ih ?_ hxy.2 hyz.2⟩
              exact fun x hx y hy => h x (List.mem_cons_of_mem _ hx) y (List.mem_cons_of_mem _ hy)

-- What is compared is known all the way down.
inductive IsFixed : Ty → Prop
  | intro {t : Ty} (known : t.outline.root ≠ none) (full : t.outline.bare = false)
      (parts : ∀ part ∈ t.outline.parts, IsFixed part) : IsFixed t

theorem isFixed_of_isFullyTyped (h : b.isFullyTyped = true) : b.IsFixed := by
  induction b using part_induction with
  | step b ih =>
      obtain ⟨hknown, hfull, hparts⟩ := outline_isFullyTyped h
      exact .intro hknown hfull fun part hpart => ih part hpart (hparts part hpart)

-- Two types that say the same as a third say the same, if the third leaves nothing open.
theorem IsFixed.equivalent_trans (hb : b.IsFixed) (hab : equivalent a b = true)
    (hbc : equivalent b c = true) : equivalent a c = true := by
  induction hb generalizing a c with
  | @intro b hknown hfull _ ih =>
      rw [equivalent_iff_outline] at hab hbc ⊢
      simp only [hknown, hfull, false_or, Bool.false_eq_true] at hab hbc
      obtain ha | ⟨hroot, hab⟩ := hab
      · exact .inl ha
      obtain hc | ⟨hroot', hbc⟩ := hbc
      · exact .inr (.inl hc)
      refine .inr (.inr ⟨hroot.trans hroot', ?_⟩)
      obtain ha | hab := hab
      · exact .inl ha
      obtain hc | hbc := hbc
      · exact .inr (.inl hc)
      exact .inr (.inr (allEquivalent_trans_of (fun x _ y hy z => ih y hy) hab hbc))

theorem equivalent_trans (hb : b.isFullyTyped = true) (hab : equivalent a b = true)
    (hbc : equivalent b c = true) : equivalent a c = true :=
  (isFixed_of_isFullyTyped hb).equivalent_trans hab hbc

theorem signaturesEquivalent_trans {f g h : Signature Ty} (hg : signatureFullyTyped g = true)
    (hfg : signaturesEquivalent f g = true) (hgh : signaturesEquivalent g h = true) :
    signaturesEquivalent f h = true := by
  rw [signatureFullyTyped_iff] at hg
  rw [signaturesEquivalent_eq] at hfg hgh ⊢
  exact allEquivalent_trans_of (fun x _ y hy z => equivalent_trans (hg y hy)) hfg hgh

end Transitivity

end Ty

end Conformance
