import Conformance.Proofs.AliasMatching
import Conformance.Proofs.Completion
import Conformance.Proofs.Instantiation

namespace Conformance

-- A match binds the parameters of its target to parts of its subject.

-- A kind of types that has the parts of its types too.
structure Hereditary (P : Ty → Prop) : Prop where
  unknown : P .unknown
  resolveAlias : ∀ {t : Ty}, P t → P t.resolveAlias
  args : ∀ {t : Ty} {n : Nominal}, P t → t.nominal? = some n → ∀ arg ∈ n.args, P arg
  members : ∀ {members : List Ty}, P (.anyOf members) → ∀ t ∈ members, P t
  params : ∀ {sig : Signature Ty}, P (.function sig) → ∀ t ∈ sig.params, P t
  result : ∀ {sig : Signature Ty}, P (.function sig) → P sig.result

-- Two matches of the same subject, which is of such a kind.
theorem Hereditary.subjectsRelated {P : Ty → Prop} (hP : Hereditary P) :
    SubjectsRelated fun a b => a = b ∧ P a where
  looks h := congrArg Ty.unalias h.1
  unknown := ⟨rfl, hP.unknown⟩
  resolveAlias h := ⟨congrArg Ty.resolveAlias h.1, hP.resolveAlias h.2⟩
  args := by
    rintro a _ m n ⟨rfl, ha⟩ hm hn
    obtain rfl := Option.some.inj (hm.symm.trans hn)
    exact List.forall₂_same.mpr fun arg harg => ⟨rfl, hP.args ha hm arg harg⟩
  members h t ht := ⟨rfl, hP.members h.2 t ht⟩
  params := by
    rintro f _ ⟨heq, hf⟩
    obtain rfl := Ty.function.inj heq
    exact List.forall₂_same.mpr fun t ht => ⟨rfl, hP.params hf t ht⟩
  result := by
    rintro f _ ⟨heq, hf⟩
    obtain rfl := Ty.function.inj heq
    exact ⟨rfl, hP.result hf⟩

namespace Ty

theorem paramName?_subset (t : Ty) : t.paramName?.toList ⊆ t.paramNames := by
  cases t with
  | param name => exact List.Subset.refl _
  | _ => exact List.nil_subset _

mutual
theorem metNames_subset : (t : Ty) → t.metNames ⊆ t.paramNames
  | .param _ => List.Subset.refl _
  | .applied base args =>
      List.append_subset.mpr ⟨List.subset_append_of_subset_left _ (paramName?_subset base),
        List.subset_append_of_subset_right _ (metNamesOfAll_subset args)⟩
  | .inst _ args => metNamesOfAll_subset args
  | .anyOf members => metNamesOfAll_subset members
  | .alias _ target => metNames_subset target
  | .nullable inner => metNames_subset inner
  | .function sig => metNamesOfSignature_subset sig
  | .unary _ arg => metNames_subset arg
  | .map key value =>
      List.append_subset.mpr ⟨List.subset_append_of_subset_left _ (metNames_subset key),
        List.subset_append_of_subset_right _ (metNames_subset value)⟩
  | .unknown | .scalar _ | .declared _ _ _ | .overload _ => List.nil_subset _
theorem metNamesOfAll_subset : (ts : List Ty) → metNamesOfAll ts ⊆ paramNamesOfAll ts
  | [] => List.nil_subset _
  | t :: ts =>
      List.append_subset.mpr ⟨List.subset_append_of_subset_left _ (metNames_subset t),
        List.subset_append_of_subset_right _ (metNamesOfAll_subset ts)⟩
theorem metNamesOfSignature_subset : (sig : Signature Ty) →
    metNamesOfSignature sig ⊆ paramNamesOfSignature sig
  | ⟨generics, params, result, wheres⟩ => by
      intro name hname
      rw [metNamesOfSignature] at hname
      rcases List.mem_append.mp hname with hname | hname
      · simp [paramNamesOfSignature, metNamesOfAll_subset params hname]
      · simp [paramNamesOfSignature, metNames_subset result hname]
end

end Ty

-- A match changes a substitution only by binding parameters, one after the other. An invariant
-- that each of these bindings keeps is kept by the whole match.

def MatchKeeps (I : Substitution → Prop) (found : Option Match) : Prop :=
  ∀ m ∈ found, I m.substitution

-- Binding a parameter to a known type of some kind keeps the invariant, and so does binding one
-- that stands for a constructor to the known constructor of such a type.
structure BindingKeeps (P : Ty → Prop) (I : Substitution → Prop) (names heads : List String) :
    Prop where
  part : ∀ name ∈ names, ∀ t s, P t → t.isUnknown = false → I s →
    MatchKeeps I (Ty.bindParam name t s)
  head : ∀ name ∈ names, name ∈ heads → ∀ t constructor s, P t →
    t.resolveAlias.constructor? = some constructor → constructor.isUnknown = false → I s →
    MatchKeeps I (Ty.bindParam name constructor s)

section Invariants

variable {P : Ty → Prop} {I : Substitution → Prop}

theorem BindingKeeps.mono {names names' heads heads' : List String}
    (h : BindingKeeps P I names heads) (hnames : names' ⊆ names) (hheads : heads' ⊆ heads) :
    BindingKeeps P I names' heads' :=
  ⟨fun name hname => h.part name (hnames hname),
    fun name hname hhead => h.head name (hnames hname) (hheads hhead)⟩

namespace MatchKeeps

theorem none : MatchKeeps I none := by
  intro m hm
  cases hm

theorem some {s : Substitution} (hs : I s) (score : Nat) : MatchKeeps I (some ⟨s, score⟩) := by
  intro m hm
  cases hm
  exact hs

end MatchKeeps

namespace Ty

-- A parameter is bound anew or left as it is.
theorem bindParam_keeps {name : String} {t : Ty} {s : Substitution} (hs : I s)
    (hinsert : I (Bindings.insert s name t)) : MatchKeeps I (bindParam name t s) := by
  rw [bindParam]
  split
  · exact .some hinsert 0
  · split
    · exact .some hs 0
    · exact .none
  · exact .some hinsert 0

-- A match that keeps an invariant follows itself.
theorem follows_of_keeps {found : Option Match} (h : MatchKeeps I found) :
    MatchesWhile (fun s s' => s = s' ∧ I s) (fun _ => True) found found :=
  ⟨fun m hm => ⟨m, hm, rfl, rfl, h m hm⟩, fun m hm _ => by rw [hm]; rfl⟩

theorem keeps_of_follows {found : Option Match}
    (h : MatchesWhile (fun s s' => s = s' ∧ I s) (fun _ => True) found found) :
    MatchKeeps I found := by
  intro m hm
  obtain ⟨m', -, -, heq, hI⟩ := h.first m hm
  exact heq ▸ hI

theorem bindingsRelated_of_keeps {names heads : List String} (h : BindingKeeps P I names heads) :
    BindingsRelated (fun a b => a = b ∧ P a) (fun s s' => s = s' ∧ I s) (fun _ => True)
      names heads where
  part := by
    rintro name hname a _ s _ ⟨rfl, ha⟩ hknown ⟨rfl, hs⟩
    exact follows_of_keeps (h.part name hname a s ha hknown hs)
  head := by
    rintro name hname hhead a _ x y s _ ⟨rfl, ha⟩ hx hy hknown ⟨rfl, hs⟩
    obtain rfl := Option.some.inj (hx.symm.trans hy)
    exact follows_of_keeps (h.head name hname hhead a x s ha hx hknown hs)

-- Parameters take parts of the subject, and only those in the place of a constructor take
-- anything else.
theorem unify_keeps_met (hP : Hereditary P) (target : Ty)
    (hbind : BindingKeeps P I target.metNames target.headNames) {t : Ty} (ht : P t)
    {s : Substitution} (hs : I s) : MatchKeeps I (unify target t s) :=
  keeps_of_follows (unify_related hP.subjectsRelated backward_true target
    (.inr fun _ => trivial) (bindingsRelated_of_keeps hbind) ⟨rfl, ht⟩ ⟨rfl, hs⟩)

theorem unifyAll_keeps_met (hP : Hereditary P) (targets : List Ty)
    (hbind : BindingKeeps P I (metNamesOfAll targets) (headNamesOfAll targets)) {ts : List Ty}
    (hts : ∀ t ∈ ts, P t) {s : Substitution} (hs : I s) : MatchKeeps I (unifyAll targets ts s) :=
  keeps_of_follows (unifyAll_related hP.subjectsRelated backward_true targets
    (.inr fun _ => trivial) (bindingsRelated_of_keeps hbind)
    (List.forall₂_same.mpr fun t ht => ⟨rfl, hts t ht⟩) ⟨rfl, hs⟩)

theorem unify_keeps (hP : Hereditary P) (target : Ty)
    (hbind : BindingKeeps P I target.paramNames target.headNames) {t : Ty} (ht : P t)
    {s : Substitution} (hs : I s) : MatchKeeps I (unify target t s) :=
  unify_keeps_met hP target (hbind.mono (metNames_subset target) (List.Subset.refl _)) ht hs

theorem unifyAll_keeps (hP : Hereditary P) (targets : List Ty)
    (hbind : BindingKeeps P I (paramNamesOfAll targets) (headNamesOfAll targets)) {ts : List Ty}
    (hts : ∀ t ∈ ts, P t) {s : Substitution} (hs : I s) : MatchKeeps I (unifyAll targets ts s) :=
  unifyAll_keeps_met hP targets
    (hbind.mono (metNamesOfAll_subset targets) (List.Subset.refl _)) hts hs

end Ty

end Invariants

section Kinds

variable (names : String → Prop) (P : Ty → Prop)

-- What some names are bound to is of a kind.
def Substitution.Values (s : Substitution) : Prop :=
  ∀ name value, names name → s.get? name = some value → P value

def MatchValues (found : Option Match) : Prop := ∀ m ∈ found, m.substitution.Values names P

end Kinds

variable {names : String → Prop} {P : Ty → Prop}

namespace Substitution.Values

theorem empty : Substitution.Values names P ∅ := by
  intro name value _ hget
  cases hget

theorem insert {s : Substitution} (hs : s.Values names P) {name : String} {t : Ty}
    (ht : names name → P t) : Substitution.Values names P (s.insert name t) := by
  intro other value hother hget
  rw [Bindings.get?_insert] at hget
  split at hget
  · obtain rfl : t = value := by simpa using hget
    rename_i heq
    exact ht (heq ▸ hother)
  · exact hs other value hother hget

theorem insertIfNew {s : Substitution} (hs : s.Values names P) {name : String} {t : Ty}
    (ht : names name → P t) : Substitution.Values names P (s.insertIfNew name t) := by
  rw [Bindings.insertIfNew]
  split
  · exact hs
  · exact hs.insert ht

theorem close (hunknown : P .unknown) {m : Match} (hs : m.substitution.Values names P)
    (generics : List (TypeParam Ty)) : (m.close generics).substitution.Values names P := by
  rw [Match.close]
  induction generics generalizing m with
  | nil => exact hs
  | cons generic generics ih =>
      rw [List.foldl_cons]
      exact @ih ⟨m.substitution.insertIfNew generic.name .unknown, m.score⟩
        (hs.insertIfNew fun _ => hunknown)

end Substitution.Values

namespace MatchValues

theorem none : MatchValues names P none := MatchKeeps.none

theorem some {s : Substitution} (hs : s.Values names P) (score : Nat) :
    MatchValues names P (some ⟨s, score⟩) :=
  MatchKeeps.some hs score

theorem close (hunknown : P .unknown) {found : Option Match} (h : MatchValues names P found)
    (generics : List (TypeParam Ty)) : MatchValues names P (found.map (·.close generics)) := by
  intro m hm
  obtain ⟨first, hfirst, rfl⟩ := Option.map_eq_some_iff.mp hm
  exact Substitution.Values.close hunknown (h first hfirst) generics

end MatchValues

namespace Ty

theorem bindParam_values {name : String} {t : Ty} (ht : names name → P t) {s : Substitution}
    (hs : s.Values names P) : MatchValues names P (bindParam name t s) :=
  bindParam_keeps hs (hs.insert ht)

-- Constructors are no parts of the subject, and so the names must not stand for them.
theorem bindingKeeps_values {params heads : List String} (hheads : ∀ name ∈ heads, ¬ names name) :
    BindingKeeps P (fun s => s.Values names P) params heads where
  part _ _ _ _ ht _ hs := bindParam_values (fun _ => ht) hs
  head name _ hhead _ _ _ _ _ _ hs := bindParam_values (fun h => absurd h (hheads name hhead)) hs

theorem matchType_values (hP : Hereditary P) {target : Ty}
    (hheads : ∀ name ∈ target.headNames, ¬ names name) {t : Ty} (ht : P t)
    (generics : List (TypeParam Ty)) : MatchValues names P (matchType t target generics) :=
  MatchValues.close hP.unknown
    (unify_keeps hP target (bindingKeeps_values hheads) ht Substitution.Values.empty) generics

theorem matchArgs_values (hP : Hereditary P) {targets : List Ty}
    (hheads : ∀ name ∈ headNamesOfAll targets, ¬ names name) {ts : List Ty} (hts : ∀ t ∈ ts, P t)
    (generics : List (TypeParam Ty)) : MatchValues names P (matchArgs ts targets generics) := by
  rw [matchArgs]
  split
  · exact .some (Substitution.Values.close hP.unknown .empty generics) 0
  · split
    · exact MatchValues.close hP.unknown
        (unifyAll_keeps hP targets (bindingKeeps_values hheads) hts Substitution.Values.empty)
        generics
    · exact .none

end Ty

end Conformance
