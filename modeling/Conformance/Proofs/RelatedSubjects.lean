import Conformance.Proofs.AliasView
import Conformance.Proofs.RelatedMatches
import Mathlib.Data.List.Forall2

namespace Conformance

-- A match meets its target part by part, and changes what is bound only by binding parameters.
-- So two matches of one target stay related, whatever the relation is, if every binding keeps it.
-- This is the only induction over the way in which a target is met that such results need.

namespace Ty

-- Matches a subject by its nominal view; what is unknown matches without binding anything.
def matchNominal (a : Ty) (s : Substitution) (next : Nominal → Option Match) : Option Match :=
  if a.resolveAlias.isUnknown then some ⟨s, 0⟩
  else
    match a.nominal? with
    | some n => next n
    | none => none

theorem unify_declared (family : Family) (name : String) (params : List String) (a : Ty)
    (s : Substitution) :
    unify (.declared family name params) a s = matchNominal a s fun n =>
      if n.name = name ∧ n.head = .declared family then some ⟨s, 1⟩ else none := by
  rw [unify, matchNominal, ← nominal?_resolveAlias a]
  cases a.resolveAlias <;> rfl

-- How the arguments of a nominal target are matched.
def matchArguments (args : List Ty) (n : Nominal) (s : Substitution) : Option Match :=
  if n.bare then some ⟨s, 1⟩
  else if !args.isEmpty ∧ args.length < n.args.length then none
  else (unifyAll args n.args s).map (Match.addScore · 1)

theorem unify_inst (name : String) (args : List Ty) (a : Ty) (s : Substitution) :
    unify (.inst name args) a s = matchNominal a s fun n =>
      if n.name = name ∧ n.head = .declared .struct then matchArguments args n s else none := by
  rw [unify, matchNominal, ← nominal?_resolveAlias a]
  cases a.resolveAlias <;> rfl

theorem unify_unary (constructor : Unary) (arg a : Ty) (s : Substitution) :
    unify (.unary constructor arg) a s = matchNominal a s fun n =>
      if n.name = constructor.name ∧ n.head = .builtin ∧ n.args.length ≤ 1 then
        (unify arg (n.args.getD 0 .unknown) s).map (Match.addScore · 1)
      else none := by
  rw [unify, matchNominal, ← nominal?_resolveAlias a]
  cases a.resolveAlias <;> rfl

theorem unify_map (key value a : Ty) (s : Substitution) :
    unify (.map key value) a s = matchNominal a s fun n =>
      if n.name = "Map" ∧ n.head = .builtin ∧ n.args.length ≤ 2 then
        (unify key (n.args.getD 0 .unknown) s).bind fun m =>
          (unify value (n.args.getD 1 .unknown) m.substitution).bind fun found =>
            some (found.addScore (1 + m.score))
      else none := by
  rw [unify, matchNominal, ← nominal?_resolveAlias a]
  cases a.resolveAlias <;> rfl

theorem eq_param_of_isParam {t : Ty} (h : t.isParam = true) : ∃ name, t = .param name := by
  cases t with
  | param name => exact ⟨name, rfl⟩
  | _ => cases h

theorem unify_applied_param (name : String) (args : List Ty) (a : Ty) (s : Substitution) :
    unify (.applied (.param name) args) a s = matchNominal a s fun n =>
      if n.args.length = args.length then
        a.resolveAlias.constructor?.bind fun constructor =>
          (bindParam name constructor s).bind fun m => unifyAll args n.args m.substitution
      else none := by
  rw [unify, matchNominal, ← nominal?_resolveAlias a]
  cases a.resolveAlias with
  | «alias» _ target => cases h : target.nominal? <;> simp [nominal?, h, isUnknown]
  | applied base _ => cases h : base.nominal? <;> simp [nominal?, h, isUnknown]
  | _ => rfl

theorem unify_applied {base : Ty} (hbase : base.isParam = false) (args : List Ty) (a : Ty)
    (s : Substitution) :
    unify (.applied base args) a s = matchNominal a s fun n =>
      match base.nominal? with
      | some head =>
          if n.sameHead head ∧ n.head ≠ .nullable then matchArguments args n s else none
      | none => none := by
  rw [unify, matchNominal, ← nominal?_resolveAlias a]
  generalize a.resolveAlias = c
  split
  · rfl
  · rename_i hknown
    have hunknown : c.isUnknown = false := by
      cases c with
      | unknown => exact absurd rfl hknown
      | _ => rfl
    rw [hunknown, if_neg Bool.false_ne_true]
    split
    · cases hbase
    · cases c.nominal? <;> cases base.nominal? <;> rfl

theorem unify_applied_eq {base : Ty} {head : Nominal} (hbase : base.nominal? = some head)
    (args : List Ty) (a : Ty) (s : Substitution) :
    unify (.applied base args) a s = matchNominal a s fun n =>
      if n.sameHead head ∧ n.head ≠ .nullable then matchArguments args n s else none := by
  have hparam : base.isParam = false := by
    cases base with
    | param => cases hbase
    | _ => rfl
  rw [unify_applied hparam, hbase]

section Alike

variable {a b : Ty}

theorem resolveAlias_alike (h : a.unalias = b.unalias) :
    a.resolveAlias.unalias = b.resolveAlias.unalias := by
  rw [← resolveAlias_unalias, ← resolveAlias_unalias, h]

theorem isUnknown_alike (h : a.unalias = b.unalias) : a.isUnknown = b.isUnknown := by
  rw [← isUnknown_unalias, h, isUnknown_unalias]

theorem nominal?_alike (h : a.unalias = b.unalias) :
    (a.nominal? = none ∧ b.nominal? = none) ∨
      ∃ name head bare xs ys, a.nominal? = some ⟨name, head, xs, bare⟩ ∧
        b.nominal? = some ⟨name, head, ys, bare⟩ ∧ xs.map unalias = ys.map unalias := by
  have hview := congrArg nominal? h
  simp only [nominal?_unalias] at hview
  cases ha : a.nominal? with
  | none =>
      have hb : b.nominal? = none := by simpa [ha] using hview.symm
      exact .inl ⟨rfl, hb⟩
  | some n =>
      obtain ⟨name, head, xs, bare⟩ := n
      cases hb : b.nominal? with
      | none => simp [ha, hb] at hview
      | some n' =>
          obtain ⟨name', head', ys, bare'⟩ := n'
          simp only [ha, hb, Option.map_some, Option.some.injEq, Nominal.mk.injEq] at hview
          obtain ⟨rfl, rfl, hargs, rfl⟩ := hview
          exact .inr ⟨name, head, bare, xs, ys, rfl, rfl, hargs⟩

theorem constructor?_alike (h : a.unalias = b.unalias) :
    (a.resolveAlias.constructor? = none ∧ b.resolveAlias.constructor? = none) ∨
      ∃ x y, a.resolveAlias.constructor? = some x ∧ b.resolveAlias.constructor? = some y ∧
        x.unalias = y.unalias := by
  have hcognate := cognate_resolveAlias h
  generalize a.resolveAlias = x at hcognate ⊢
  generalize b.resolveAlias = y at hcognate ⊢
  cases hcognate with
  | same =>
      cases hx : x.constructor? with
      | none => exact .inl ⟨rfl, rfl⟩
      | some c => exact .inr ⟨c, c, rfl, rfl, rfl⟩
  | applied _ _ hbase => exact .inr ⟨_, _, rfl, rfl, hbase⟩
  | inst | unary | map => exact .inr ⟨_, _, rfl, rfl, rfl⟩
  | nullable | function => exact .inl ⟨rfl, rfl⟩

end Alike

theorem headD_eq_getD (xs : List Ty) (t : Ty) : xs.headD t = xs.getD 0 t := by
  cases xs <;> rfl

def paramName? : Ty → Option String
  | .param name => some name
  | _ => none

mutual
-- The parameters that stand for constructors. A match binds them to constructors, which are
-- no parts of the subject.
def headNames : Ty → List String
  | .applied base args => base.paramName?.toList ++ headNamesOfAll args
  | .inst _ args => headNamesOfAll args
  | .anyOf members => headNamesOfAll members
  | .alias _ target => target.headNames
  | .nullable inner => inner.headNames
  | .function sig => headNamesOfSignature sig
  | .unary _ arg => arg.headNames
  | .map key value => key.headNames ++ value.headNames
  | _ => []
def headNamesOfAll : List Ty → List String
  | [] => []
  | t :: ts => t.headNames ++ headNamesOfAll ts
def headNamesOfSignature : Signature Ty → List String
  | ⟨_, params, result, _⟩ => headNamesOfAll params ++ result.headNames
end

mutual
-- The parameters that a match can meet. What is applied is met only if it is a parameter itself;
-- bounds, where-clauses and overload sets are not looked at.
def metNames : Ty → List String
  | .param name => [name]
  | .applied base args => base.paramName?.toList ++ metNamesOfAll args
  | .inst _ args => metNamesOfAll args
  | .anyOf members => metNamesOfAll members
  | .alias _ target => target.metNames
  | .nullable inner => inner.metNames
  | .function sig => metNamesOfSignature sig
  | .unary _ arg => arg.metNames
  | .map key value => key.metNames ++ value.metNames
  | _ => []
def metNamesOfAll : List Ty → List String
  | [] => []
  | t :: ts => t.metNames ++ metNamesOfAll ts
def metNamesOfSignature : Signature Ty → List String
  | ⟨_, params, result, _⟩ => metNamesOfAll params ++ result.metNames
end

-- The constructor of a type is of the same name and kind as the type.
theorem nominal?_constructor? {t constructor : Ty} {n : Nominal}
    (h : t.resolveAlias.constructor? = some constructor) (hn : t.nominal? = some n) :
    n.bare = false ∧ ∃ args bare, constructor.nominal? = some ⟨n.name, n.head, args, bare⟩ := by
  rw [← nominal?_resolveAlias] at hn
  cases hresolved : t.resolveAlias with
  | applied base args =>
      rw [hresolved] at h hn
      obtain rfl := Option.some.inj h
      obtain ⟨head, hbase, rfl⟩ := Option.map_eq_some_iff.mp hn
      exact ⟨rfl, _, _, hbase⟩
  | inst | unary | map =>
      rw [hresolved] at h hn
      obtain rfl := Option.some.inj h
      obtain rfl := Option.some.inj hn
      exact ⟨rfl, _, _, rfl⟩
  | _ =>
      rw [hresolved] at h
      cases h

theorem isUnknown_constructor? {t constructor : Ty} {n : Nominal}
    (h : t.resolveAlias.constructor? = some constructor) (hn : t.nominal? = some n) :
    constructor.isUnknown = false := by
  obtain ⟨-, args, bare, hnominal⟩ := nominal?_constructor? h hn
  cases constructor with
  | unknown => cases hnominal
  | _ => rfl

mutual
-- Targets in which no union without a name is met.
def isUnionFree : Ty → Bool
  | .anyOf _ => false
  | .inst _ args => allUnionFree args
  | .alias _ target => target.isUnionFree
  | .applied _ args => allUnionFree args
  | .nullable inner => inner.isUnionFree
  | .function sig => signatureUnionFree sig
  | .unary _ arg => arg.isUnionFree
  | .map key value => key.isUnionFree && value.isUnionFree
  | _ => true
def allUnionFree : List Ty → Bool
  | [] => true
  | t :: ts => t.isUnionFree && allUnionFree ts
def signatureUnionFree : Signature Ty → Bool
  | ⟨_, params, result, _⟩ => allUnionFree params && result.isUnionFree
end

end Ty

-- One match follows another: if it succeeds then so does the other, with the same score and with
-- related substitutions, and it succeeds if the other does and has bound nothing against a
-- condition.
structure MatchesWhile (R : Substitution → Substitution → Prop) (F : Substitution → Prop)
    (found found' : Option Match) : Prop where
  first : ∀ m', found' = some m' → ∃ m, found = some m ∧ m.score = m'.score ∧
    R m.substitution m'.substitution
  second : ∀ m, found = some m → F m.substitution → found'.isSome = true

variable {R : Substitution → Substitution → Prop} {F : Substitution → Prop}

namespace MatchesWhile

variable {found found' : Option Match}

theorem none : MatchesWhile R F none none :=
  ⟨fun _ h => (by cases h), fun _ h => (by cases h)⟩

theorem some {s s' : Substitution} (hs : R s s') (score : Nat) :
    MatchesWhile R F (some ⟨s, score⟩) (some ⟨s', score⟩) := by
  refine ⟨fun m' hm' => ⟨⟨s, score⟩, rfl, ?_⟩, fun _ _ _ => rfl⟩
  obtain rfl := Option.some.inj hm'
  exact ⟨rfl, hs⟩

theorem map (h : MatchesWhile R F found found') {f : Match → Match}
    (hf : ∀ m, (f m).substitution = m.substitution)
    (hscore : ∀ m m', m.score = m'.score → (f m).score = (f m').score) :
    MatchesWhile R F (found.map f) (found'.map f) := by
  refine ⟨fun r hr => ?_, fun r hr hcondition => ?_⟩
  · obtain ⟨m', hm', rfl⟩ := Option.map_eq_some_iff.mp hr
    obtain ⟨m, rfl, heq, hs⟩ := h.first m' hm'
    exact ⟨f m, rfl, hscore m m' heq, by rwa [hf, hf]⟩
  · obtain ⟨m, hm, rfl⟩ := Option.map_eq_some_iff.mp hr
    rw [hf] at hcondition
    simpa using h.second m hm hcondition

theorem addScore (h : MatchesWhile R F found found') (points : Nat) :
    MatchesWhile R F (found.map (Match.addScore · points)) (found'.map (Match.addScore · points)) :=
  h.map (fun _ => rfl) fun _ _ heq => congrArg (points + ·) heq

-- What comes next must not take back a binding that is against the condition.
theorem bind (h : MatchesWhile R F found found') {next next' : Match → Option Match}
    (hnext : ∀ m m', R m.substitution m'.substitution → m.score = m'.score →
      MatchesWhile R F (next m) (next' m'))
    (hback : ∀ m r, next m = Option.some r → F r.substitution → F m.substitution) :
    MatchesWhile R F (found.bind next) (found'.bind next') := by
  refine ⟨fun r' hr' => ?_, fun r hr hcondition => ?_⟩
  · obtain ⟨m', hm', hr'⟩ := Option.bind_eq_some_iff.mp hr'
    obtain ⟨m, hm, heq, hs⟩ := h.first m' hm'
    obtain ⟨r, hr, hrest⟩ := (hnext m m' hs heq).first r' hr'
    exact ⟨r, by rw [hm]; exact hr, hrest⟩
  · obtain ⟨m, hm, hr⟩ := Option.bind_eq_some_iff.mp hr
    obtain ⟨m', hm'⟩ := Option.isSome_iff_exists.mp (h.second m hm (hback m r hr hcondition))
    obtain ⟨m₀, hm₀, heq, hs⟩ := h.first m' hm'
    obtain rfl := Option.some.inj (hm.symm.trans hm₀)
    rw [hm']
    exact (hnext m m' hs heq).second r hr hcondition

-- Two parts of a target after each other, with the points of both.
theorem both (h : MatchesWhile R F found found') {next next' : Substitution → Option Match}
    (hnext : ∀ s s', R s s' → MatchesWhile R F (next s) (next' s'))
    (hback : ∀ s r, next s = Option.some r → F r.substitution → F s) (points : Nat → Nat) :
    MatchesWhile R F
      (found.bind fun m => (next m.substitution).bind fun r =>
        Option.some (r.addScore (points m.score)))
      (found'.bind fun m => (next' m.substitution).bind fun r =>
        Option.some (r.addScore (points m.score))) := by
  refine h.bind (fun m m' hs hscore => ?_) fun m r hr hcondition => ?_
  · rw [hscore]
    simpa only [Option.map_eq_bind, Function.comp_def] using
      (hnext _ _ hs).addScore (points m'.score)
  · obtain ⟨rest, hrest, hsome⟩ := Option.bind_eq_some_iff.mp hr
    obtain rfl := Option.some.inj hsome
    exact hback m.substitution rest hrest hcondition

-- Without a condition both succeed or both fail.
theorem iff_related (hF : ∀ s, F s) :
    MatchesWhile R F found found' ↔ MatchesRelated R found found' := by
  constructor
  · intro h
    cases hfound' : found' with
    | none =>
        cases hfound : found with
        | none => exact .none
        | some m => simpa [hfound'] using h.second m hfound (hF _)
    | some m' =>
        obtain ⟨m, rfl, hscore, hs⟩ := h.first m' hfound'
        exact Option.Rel.some ⟨hs, hscore⟩
  · rintro (⟨hs, hscore⟩ | _)
    · refine ⟨fun r hr => ⟨_, rfl, ?_⟩, fun _ _ _ => rfl⟩
      obtain rfl := Option.some.inj hr
      exact ⟨hscore, hs⟩
    · exact .none

theorem related (h : MatchesWhile R (fun _ => True) found found') : MatchesRelated R found found' :=
  (iff_related fun _ => trivial).mp h

end MatchesWhile

theorem MatchesRelated.follows {found found' : Option Match} (h : MatchesRelated R found found') :
    MatchesWhile R (fun _ => True) found found' :=
  (MatchesWhile.iff_related fun _ => trivial).mpr h

-- Subjects of two matches that look the same through their aliases, as their parts do.
structure SubjectsRelated (S : Ty → Ty → Prop) : Prop where
  looks : ∀ {a b : Ty}, S a b → a.unalias = b.unalias
  unknown : S .unknown .unknown
  resolveAlias : ∀ {a b : Ty}, S a b → S a.resolveAlias b.resolveAlias
  args : ∀ {a b : Ty} {m n : Nominal}, S a b → a.nominal? = some m → b.nominal? = some n →
    List.Forall₂ S m.args n.args
  members : ∀ {members : List Ty}, S (.anyOf members) (.anyOf members) → ∀ t ∈ members, S t t
  params : ∀ {f g : Signature Ty}, S (.function f) (.function g) →
    List.Forall₂ S f.params g.params
  result : ∀ {f g : Signature Ty}, S (.function f) (.function g) → S f.result g.result

-- Binding a parameter to related known types keeps a relation, and so does binding one that
-- stands for a constructor to the known constructors of such types.
structure BindingsRelated (S : Ty → Ty → Prop) (R : Substitution → Substitution → Prop)
    (F : Substitution → Prop) (names heads : List String) : Prop where
  part : ∀ name ∈ names, ∀ a b s s', S a b → a.isUnknown = false → R s s' →
    MatchesWhile R F (Ty.bindParam name a s) (Ty.bindParam name b s')
  head : ∀ name ∈ names, name ∈ heads → ∀ a b x y s s', S a b →
    a.resolveAlias.constructor? = some x → b.resolveAlias.constructor? = some y →
    x.isUnknown = false → R s s' →
    MatchesWhile R F (Ty.bindParam name x s) (Ty.bindParam name y s')

theorem BindingsRelated.mono {S : Ty → Ty → Prop} {names names' heads heads' : List String}
    (h : BindingsRelated S R F names heads) (hnames : names' ⊆ names) (hheads : heads' ⊆ heads) :
    BindingsRelated S R F names' heads' :=
  ⟨fun name hname => h.part name (hnames hname),
    fun name hname hhead => h.head name (hnames hname) (hheads hhead)⟩

-- A condition that no match brings about.
def Backward (F : Substitution → Prop) : Prop :=
  ∀ target t s m, Ty.unify target t s = some m → F m.substitution → F s

theorem backward_true : Backward fun _ => True := fun _ _ _ _ _ _ => trivial

theorem Backward.unifyAll (h : Backward F) {targets ts : List Ty} {s : Substitution} {m : Match}
    (hm : Ty.unifyAll targets ts s = some m) (hcondition : F m.substitution) : F s := by
  induction targets generalizing ts s m with
  | nil =>
      obtain rfl := Option.some.inj hm
      exact hcondition
  | cons target targets ih =>
      rw [Ty.unifyAll] at hm
      obtain ⟨first, hfirst, hm⟩ := Option.bind_eq_some_iff.mp hm
      obtain ⟨rest, hrest, hm⟩ := Option.bind_eq_some_iff.mp hm
      obtain rfl := Option.some.inj hm
      exact h target _ s first hfirst (ih hrest hcondition)

namespace Ty

variable {S : Ty → Ty → Prop}

theorem matchNominal_related (hS : SubjectsRelated S) {a b : Ty} (h : S a b)
    {s s' : Substitution} (hs : R s s') {next next' : Nominal → Option Match}
    (hnext : ∀ name head bare xs ys, a.nominal? = some ⟨name, head, xs, bare⟩ →
      List.Forall₂ S xs ys →
      MatchesWhile R F (next ⟨name, head, xs, bare⟩) (next' ⟨name, head, ys, bare⟩)) :
    MatchesWhile R F (matchNominal a s next) (matchNominal b s' next') := by
  rw [matchNominal, matchNominal, isUnknown_alike (resolveAlias_alike (hS.looks h))]
  split
  · exact .some hs 0
  · obtain ⟨ha, hb⟩ | ⟨name, head, bare, xs, ys, ha, hb, -⟩ := nominal?_alike (hS.looks h)
    · rw [ha, hb]
      exact .none
    · have hargs := hS.args h ha hb
      rw [ha, hb]
      exact hnext name head bare xs ys ha hargs

theorem getD_related (hS : SubjectsRelated S) {xs ys : List Ty} (h : List.Forall₂ S xs ys)
    (i : Nat) : S (xs.getD i .unknown) (ys.getD i .unknown) := by
  induction h generalizing i with
  | nil => exact hS.unknown
  | cons hfirst _ ih =>
      cases i with
      | zero => exact hfirst
      | succ i => exact ih i

theorem tail_related {xs ys : List Ty} (h : List.Forall₂ S xs ys) :
    List.Forall₂ S xs.tail ys.tail := by
  cases h with
  | nil => exact .nil
  | cons _ hrest => exact hrest

theorem matchArguments_related {args xs ys : List Ty} (h : List.Forall₂ S xs ys)
    {s s' : Substitution} (hs : R s s')
    (hargs : MatchesWhile R F (unifyAll args xs s) (unifyAll args ys s')) (name : String)
    (head : Head) (bare : Bool) :
    MatchesWhile R F (matchArguments args ⟨name, head, xs, bare⟩ s)
      (matchArguments args ⟨name, head, ys, bare⟩ s') := by
  rw [matchArguments, matchArguments]
  dsimp only
  rw [h.length_eq]
  split_ifs
  · exact .some hs 1
  · exact .none
  · exact hargs.addScore 1

-- A parameter in the place of a constructor takes the constructor of the subject, and then its
-- arguments are matched.
theorem appliedParam_related (hS : SubjectsRelated S) (hF : Backward F) {name : String}
    {args : List Ty} {a b : Ty} (h : S a b) {s s' : Substitution} (hs : R s s')
    (hhead : ∀ x y, a.resolveAlias.constructor? = some x → b.resolveAlias.constructor? = some y →
      x.isUnknown = false → MatchesWhile R F (bindParam name x s) (bindParam name y s'))
    (hargs : ∀ {xs ys s s'}, List.Forall₂ S xs ys → R s s' →
      MatchesWhile R F (unifyAll args xs s) (unifyAll args ys s')) :
    MatchesWhile R F (unify (.applied (.param name) args) a s)
      (unify (.applied (.param name) args) b s') := by
  rw [unify_applied_param, unify_applied_param]
  refine matchNominal_related hS h hs fun _ head bare xs ys hnominal hparts => ?_
  dsimp only
  rw [hparts.length_eq]
  split
  · obtain ⟨hx, hy⟩ | ⟨x, y, hx, hy, -⟩ := constructor?_alike (hS.looks h)
    · rw [hx, hy]
      exact .none
    · have hbound := hhead x y hx hy (isUnknown_constructor? hx hnominal)
      rw [hx, hy]
      exact hbound.bind (fun _ _ hm _ => hargs hparts hm) fun _ _ hr => hF.unifyAll hr
  · exact .none

-- A nullable target looks into a nullable subject, and takes any other as it is.
theorem nullable_related (hS : SubjectsRelated S) {target a b : Ty} (h : S a b)
    {s s' : Substitution} (hs : R s s')
    (hinner : ∀ {x y}, S x y → MatchesWhile R F (unify target x s) (unify target y s')) :
    MatchesWhile R F (unify (.nullable target) a s) (unify (.nullable target) b s') := by
  have hresolved := hS.resolveAlias h
  have hcognate := cognate_resolveAlias (hS.looks h)
  have hpart {x y : Ty} (h : S (.nullable x) (.nullable y)) : S x y :=
    getD_related hS (hS.args h rfl rfl) 0
  rw [unify, unify]
  generalize a.resolveAlias = x at hcognate hresolved ⊢
  generalize b.resolveAlias = y at hcognate hresolved ⊢
  have hplain : MatchesWhile R F ((unify target x s).map Match.withoutScore)
      ((unify target y s').map Match.withoutScore) :=
    (hinner hresolved).map (fun _ => rfl) fun _ _ _ => rfl
  cases hcognate with
  | same =>
      cases x with
      | unknown => exact .some hs 0
      | nullable inner => exact (hinner (hpart hresolved)).addScore 1
      | _ =>
          dsimp only
          split_ifs
          · exact .some hs 0
          · exact hplain
  | nullable => exact (hinner (hpart hresolved)).addScore 1
  | _ => simpa [nil] using hplain

mutual
-- Related subjects are matched alike by every target, or by those without unions if there is a
-- condition: a union takes the first of its members that fits, so it must be known which do not.
theorem unify_related (hS : SubjectsRelated S) (hF : Backward F) : (target : Ty) →
    (target.isUnionFree = true ∨ ∀ s, F s) →
    BindingsRelated S R F target.metNames target.headNames → {a b : Ty} → S a b →
    {s s' : Substitution} → R s s' →
    MatchesWhile R F (unify target a s) (unify target b s')
  | .unknown, _, _, _, _, _, _, _, hs => .some hs 0
  | .param name, _, hbind, a, b, h, _, _, hs => by
      rw [unify, unify, ← isUnknown_alike (hS.looks h)]
      split
      · exact .some hs 0
      · rename_i hknown
        exact hbind.part name (by simp [metNames]) a b _ _ h (Bool.eq_false_iff.mpr hknown) hs
  | .alias _ target, hfree, hbind, _, _, h, _, _, hs => by
      rw [unify, unify]
      exact unify_related hS hF target hfree hbind (hS.resolveAlias h) hs
  | .scalar kind, _, _, a, b, h, _, _, hs => by
      have hcognate := cognate_resolveAlias (hS.looks h)
      rw [unify, unify]
      generalize a.resolveAlias = x at hcognate ⊢
      generalize b.resolveAlias = y at hcognate ⊢
      cases hcognate with
      | same =>
          cases x with
          | unknown => exact .some hs 0
          | scalar other =>
              dsimp only
              split
              · exact .some hs 1
              · exact .none
          | _ => exact .none
      | _ => exact .none
  | .declared _ _ _, _, _, _, _, h, _, _, hs => by
      rw [unify_declared, unify_declared]
      refine matchNominal_related hS h hs fun name head bare xs ys _ _ => ?_
      dsimp only
      split
      · exact .some hs 1
      · exact .none
  | .inst _ args, hfree, hbind, _, _, h, _, _, hs => by
      rw [unify_inst, unify_inst]
      refine matchNominal_related hS h hs fun name head bare xs ys _ hargs => ?_
      dsimp only
      split
      · exact matchArguments_related hargs hs
          (unifyAll_related hS hF args hfree hbind hargs hs) name head bare
      · exact .none
  | .anyOf members, hfree, hbind, a, b, h, s, s', hs => by
      have hall : ∀ s, F s := hfree.resolve_left (by simp [isUnionFree])
      have hslots := slots_related hS hF members hall hbind
      have hresolved := hS.resolveAlias h
      have hcognate := cognate_resolveAlias (hS.looks h)
      have htake := (Slot.takeAccepting_related (fun slot hmem => hslots slot hmem hresolved) hs).1
      rw [MatchesWhile.iff_related hall, unify, unify]
      generalize a.resolveAlias = x at hcognate hresolved htake ⊢
      generalize b.resolveAlias = y at hcognate hresolved htake ⊢
      cases hcognate with
      | same =>
          cases x with
          | unknown => exact .some hs 0
          | anyOf actuals =>
              exact Slot.pair_related actuals
                (fun slot hmem t ht => hslots slot hmem (hS.members hresolved t ht)) hs
          | _ => exact htake
      | _ => exact htake
  | .applied base args, hfree, hbind, a, b, h, _, _, hs => by
      have hrest : BindingsRelated S R F (metNamesOfAll args) (headNamesOfAll args) :=
        hbind.mono (List.subset_append_right _ _) (List.subset_append_right _ _)
      cases hbase : base.isParam with
      | true =>
          obtain ⟨name, rfl⟩ := eq_param_of_isParam hbase
          exact appliedParam_related hS hF h hs
            (fun x y hx hy hknown => hbind.head name (by simp [metNames, paramName?])
              (by simp [headNames, paramName?]) a b x y _ _ h hx hy hknown hs)
            fun hargs hs => unifyAll_related hS hF args hfree hrest hargs hs
      | false =>
          rw [unify_applied hbase, unify_applied hbase]
          refine matchNominal_related hS h hs fun name head bare xs ys _ hargs => ?_
          cases base.nominal? with
          | none => exact .none
          | some n =>
              have hhead : Nominal.sameHead ⟨name, head, xs, bare⟩ n =
                  Nominal.sameHead ⟨name, head, ys, bare⟩ n := rfl
              dsimp only
              rw [hhead]
              split
              · exact matchArguments_related hargs hs
                  (unifyAll_related hS hF args hfree hrest hargs hs) name head bare
              · exact .none
  | .nullable target, hfree, hbind, _, _, h, _, _, hs =>
      nullable_related hS h hs fun h => unify_related hS hF target hfree hbind h hs
  | .function sig, hfree, hbind, a, b, h, _, _, hs => by
      have hresolved := hS.resolveAlias h
      have hcognate := cognate_resolveAlias (hS.looks h)
      rw [unify, unify]
      generalize a.resolveAlias = x at hcognate hresolved ⊢
      generalize b.resolveAlias = y at hcognate hresolved ⊢
      cases hcognate with
      | same =>
          cases x with
          | unknown => exact .some hs 0
          | function f =>
              exact (unifySignature_related hS hF sig hfree hbind (hS.params hresolved)
                (hS.result hresolved) hs).addScore 1
          | _ => exact .none
      | function =>
          exact (unifySignature_related hS hF sig hfree hbind (hS.params hresolved)
            (hS.result hresolved) hs).addScore 1
      | _ => exact .none
  | .overload _, _, _, a, b, h, _, _, hs => by
      have hcognate := cognate_resolveAlias (hS.looks h)
      rw [unify, unify]
      generalize a.resolveAlias = x at hcognate ⊢
      generalize b.resolveAlias = y at hcognate ⊢
      cases hcognate with
      | same =>
          cases x with
          | unknown => exact .some hs 0
          | _ => exact .none
      | _ => exact .none
  | .unary _ arg, hfree, hbind, _, _, h, _, _, hs => by
      rw [unify_unary, unify_unary]
      refine matchNominal_related hS h hs fun name head bare xs ys _ hargs => ?_
      dsimp only
      rw [hargs.length_eq]
      split
      · exact (unify_related hS hF arg hfree hbind (getD_related hS hargs 0) hs).addScore 1
      · exact .none
  | .map key value, hfree, hbind, _, _, h, _, _, hs => by
      have hboth : key.isUnionFree = true ∧ value.isUnionFree = true ∨ ∀ s, F s :=
        hfree.imp_left fun hfree => by rwa [isUnionFree, Bool.and_eq_true] at hfree
      have hkey : BindingsRelated S R F key.metNames key.headNames :=
        hbind.mono (List.subset_append_left _ _) (List.subset_append_left _ _)
      have hvalue : BindingsRelated S R F value.metNames value.headNames :=
        hbind.mono (List.subset_append_right _ _) (List.subset_append_right _ _)
      rw [unify_map, unify_map]
      refine matchNominal_related hS h hs fun name head bare xs ys _ hargs => ?_
      dsimp only
      rw [hargs.length_eq]
      split
      · exact (unify_related hS hF key (hboth.imp_left And.left) hkey
            (getD_related hS hargs 0) hs).both
          (fun s s' hs => unify_related hS hF value (hboth.imp_left And.right) hvalue
            (getD_related hS hargs 1) hs) (fun s r hr => hF value _ s r hr) (1 + ·)
      · exact .none
theorem unifyAll_related (hS : SubjectsRelated S) (hF : Backward F) : (targets : List Ty) →
    (allUnionFree targets = true ∨ ∀ s, F s) →
    BindingsRelated S R F (metNamesOfAll targets) (headNamesOfAll targets) → {xs ys : List Ty} →
    List.Forall₂ S xs ys → {s s' : Substitution} → R s s' →
    MatchesWhile R F (unifyAll targets xs s) (unifyAll targets ys s')
  | [], _, _, _, _, _, _, _, hs => .some hs 0
  | target :: targets, hfree, hbind, xs, ys, h, _, _, hs => by
      have hboth : target.isUnionFree = true ∧ allUnionFree targets = true ∨ ∀ s, F s :=
        hfree.imp_left fun hfree => by rwa [allUnionFree, Bool.and_eq_true] at hfree
      have hfirst : BindingsRelated S R F target.metNames target.headNames :=
        hbind.mono (List.subset_append_left _ _) (List.subset_append_left _ _)
      have hrest : BindingsRelated S R F (metNamesOfAll targets) (headNamesOfAll targets) :=
        hbind.mono (List.subset_append_right _ _) (List.subset_append_right _ _)
      rw [unifyAll, unifyAll, headD_eq_getD, headD_eq_getD]
      exact (unify_related hS hF target (hboth.imp_left And.left) hfirst
          (getD_related hS h 0) hs).both
        (fun s s' hs => unifyAll_related hS hF targets (hboth.imp_left And.right) hrest
          (tail_related h) hs) (fun s r hr => hF.unifyAll hr) id
theorem unifySignature_related (hS : SubjectsRelated S) (hF : Backward F) :
    (target : Signature Ty) → (signatureUnionFree target = true ∨ ∀ s, F s) →
    BindingsRelated S R F (metNamesOfSignature target) (headNamesOfSignature target) →
    {f g : Signature Ty} → List.Forall₂ S f.params g.params → S f.result g.result →
    {s s' : Substitution} → R s s' →
    MatchesWhile R F (unifySignature target f s) (unifySignature target g s')
  | ⟨_, params, result, _⟩, hfree, hbind, f, g, hparams, hresult, _, _, hs => by
      have hboth : allUnionFree params = true ∧ result.isUnionFree = true ∨ ∀ s, F s :=
        hfree.imp_left fun hfree => by rwa [signatureUnionFree, Bool.and_eq_true] at hfree
      have hfirst : BindingsRelated S R F (metNamesOfAll params) (headNamesOfAll params) :=
        hbind.mono (List.subset_append_left _ _) (List.subset_append_left _ _)
      have hlast : BindingsRelated S R F result.metNames result.headNames :=
        hbind.mono (List.subset_append_right _ _) (List.subset_append_right _ _)
      rw [unifySignature, unifySignature, hparams.length_eq]
      split
      · exact (unifyAll_related hS hF params (hboth.imp_left And.left) hfirst hparams hs).both
          (fun s s' hs => unify_related hS hF result (hboth.imp_left And.right) hlast hresult hs)
          (fun s r hr => hF result _ s r hr) id
      · exact .none
theorem slots_related (hS : SubjectsRelated S) (hF : Backward F) : (targets : List Ty) →
    (hall : ∀ s, F s) → BindingsRelated S R F (metNamesOfAll targets) (headNamesOfAll targets) →
    ∀ slot ∈ slots targets, ∀ {a b : Ty}, S a b → slot.AcceptsAlike R a b
  | [], _, _, _, hmem, _, _, _ => by simp [slots] at hmem
  | target :: targets, hall, hbind, slot, hmem, a, b, h => by
      rw [slots] at hmem
      rcases List.mem_cons.mp hmem with rfl | hmem
      · exact fun s s' hs => (MatchesWhile.iff_related hall).mp (unify_related hS hF target
          (.inr hall) (hbind.mono (List.subset_append_left _ _) (List.subset_append_left _ _)) h hs)
      · exact slots_related hS hF targets hall
          (hbind.mono (List.subset_append_right _ _) (List.subset_append_right _ _)) slot hmem h
end

end Ty

end Conformance
