import Conformance.Proofs.UserPrecedence

namespace Conformance

-- The preferred interface of a priority pair decides between one implementation of each, and
-- nothing else does where the implementations say the same.

section Ties

variable {α : Type} {cmp : α → α → Ordering} {name : α → String}

-- A scan through candidates that are all level keeps all of them.
theorem select_level [Std.OrientedCmp cmp] {first : α} {rest : List α}
    (h : ∀ a ∈ first :: rest, ∀ b ∈ first :: rest, cmp a b = .eq) :
    select cmp name (first :: rest) = some (settle name (first :: rest)) := by
  have hfirst : first ∈ first :: rest := List.mem_cons_self
  have hleads : Leads cmp (first :: rest) first := by
    refine ⟨hfirst, fun x hx => .inr ⟨h first hfirst x hx, fun y hy => ?_⟩⟩
    rw [h x hx y hy, h first hfirst y hy]
  have hall : (first :: rest).filter (fun x => cmp first x = .eq) = first :: rest :=
    List.filter_eq_self.mpr fun x hx => by simp [h first hfirst x hx]
  rw [select, choose_eq_settle, Scan.contenders_eq_filter hleads, hall]

-- A pair says nothing about candidates of other names.
theorem preferred?_of_other {pair : String × String} {tied : List α} {a : α} (ha : a ∈ tied)
    (hfirst : name a ≠ pair.1) (hsecond : name a ≠ pair.2) :
    preferred? name pair tied = none := by
  rw [preferred?, if_neg]
  intro hall
  simpa [hfirst, hsecond] using List.all_eq_true.mp hall a ha

-- The two pairs have no name in common, and so the one that all the names are of decides.
theorem settle_of_names {pair : String × String} (hpair : pair ∈ priorityPairs) {tied : List α}
    (hnames : ∀ a ∈ tied, name a = pair.1 ∨ name a = pair.2) (hmany : 2 ≤ tied.length) :
    settle name tied = (preferred? name pair tied).elim (.tied tied) .winner := by
  have hsingle : ¬ ∃ only, tied = [only] := by
    rintro ⟨only, rfl⟩
    simp at hmany
  obtain ⟨a, ha⟩ := List.exists_mem_of_length_pos (Nat.lt_of_lt_of_le Nat.zero_lt_two hmany)
  have hother (other : String × String) (hfirst : other.1 ≠ pair.1 ∧ other.1 ≠ pair.2)
      (hsecond : other.2 ≠ pair.1 ∧ other.2 ≠ pair.2) : preferred? name other tied = none := by
    apply preferred?_of_other ha
    · rcases hnames a ha with h | h <;> rw [h]
      · exact hfirst.1.symm
      · exact hfirst.2.symm
    · rcases hnames a ha with h | h <;> rw [h]
      · exact hsecond.1.symm
      · exact hsecond.2.symm
  rw [settle_of_not_single hsingle]
  congr 1
  obtain rfl | rfl : pair = ("Eq", "PartialEq") ∨ pair = ("Ord", "PartialOrd") := by
    simpa [priorityPairs] using hpair
  · simp only [priorityPairs, List.findSome?_cons, List.findSome?_nil,
      hother ("Ord", "PartialOrd") (by decide) (by decide)]
    cases preferred? name ("Eq", "PartialEq") tied <;> rfl
  · simp only [priorityPairs, List.findSome?_cons, List.findSome?_nil,
      hother ("Eq", "PartialEq") (by decide) (by decide)]
    cases preferred? name ("Ord", "PartialOrd") tied <;> rfl

theorem preferred?_one_of_each {pair : String × String} {tied : List α}
    (hnames : ∀ a ∈ tied, name a = pair.1 ∨ name a = pair.2) {a b : α}
    (hfirst : tied.filter (fun c => name c = pair.1) = [a])
    (hsecond : tied.filter (fun c => name c = pair.2) = [b]) :
    preferred? name pair tied = some a := by
  rw [preferred?, if_pos]
  · simp only [hfirst, hsecond]
  · simpa using hnames

theorem preferred?_not_one_of_each {pair : String × String} {tied : List α}
    (h : (tied.filter fun c => name c = pair.1).length ≠ 1 ∨
      (tied.filter fun c => name c = pair.2).length ≠ 1) :
    preferred? name pair tied = none := by
  unfold preferred?
  split
  · split
    · rename_i hfirst hsecond
      simp [hfirst, hsecond] at h
    · rfl
  · rfl

end Ties

namespace Implementation

-- An implementation of the user that says nothing but its target.
structure PlainFor (impl : Implementation) (target : Ty) : Prop where
  unnamed : impl.name = none
  target : impl.target = target
  generics : impl.generics = []
  args : impl.args = []
  obligations : impl.obligations = []
  user : impl.isBuiltin = false

-- What survives of an implementation without arguments whose target has matched a subject.
def survivor (impl : Implementation) (env : Environment) (subject : Ty) (found : Match) :
    Survivor :=
  ⟨impl, Substitution.complete found.substitution env impl subject, [], found.score⟩

end Implementation

namespace Resolver

variable {r : Resolver} {target : Ty} {found : Match}

theorem assess_plain {below : Option Explorer} {goals : List Goal} {goal : Goal}
    {impl : Implementation} (himpl : impl.PlainFor target) (hargs : goal.args = [])
    (htarget : target.asInterface? = none)
    (hmatch : Ty.matchType goal.subject target [] = some found) :
    (r.assess below goals goal impl).survivor? = some (impl.survivor r.env goal.subject found) := by
  rw [assess_survivor?_eq_some_iff]
  refine ⟨found, ?_, rfl, rfl, ?_, rfl, ?_, ?_⟩
  · rw [matchTargetIn, himpl.target, htarget, himpl.generics, hmatch]
  · simp [Implementation.survivor, himpl.args]
  · simp [argsCompatible, hargs]
  · simp [himpl.obligations]

theorem compare_plain {a b : Implementation} (ha : a.PlainFor target) (hb : b.PlainFor target)
    (env : Environment) (subject : Ty) :
    r.compare (a.survivor env subject found) (b.survivor env subject found) = .eq := by
  have hconcrete : a.isConcrete = b.isConcrete := by
    simp [Implementation.isConcrete, ha.target, hb.target]
  have hkeys : a.constraintKeys = b.constraintKeys := by
    simp [Implementation.constraintKeys, ha.obligations, hb.obligations]
  have hvariants : a.variants = b.variants := by
    simp [Implementation.variants, ha.target, hb.target]
  simp [compare, Survivor.compare, Implementation.survivor, hconcrete, hkeys, hvariants,
    strictSuperset_self, compareVariants_self, ha.user, hb.user]

-- Plain implementations for one target survive together and are level.
theorem resolve_plain {impls : List Implementation} {interface : String} {subject : Ty}
    (hdepth : 1 ≤ r.options.maxDepth)
    (himpls : r.registry.candidates (servingInterfaces interface) = impls)
    (hplain : ∀ impl ∈ impls, impl.PlainFor target) (htarget : target.asInterface? = none)
    (hmatch : Ty.matchType subject target [] = some found) :
    ∃ detail, r.resolve subject interface [] =
      outcome (Goal.lookup subject interface []) detail
        (if impls.isEmpty then none
          else some ((settle Implementation.interfaceName impls).map
            (Implementation.survivor · r.env subject found))) := by
  obtain ⟨room, hroom⟩ : ∃ room, r.options.maxDepth = room + 1 :=
    ⟨r.options.maxDepth - 1, by omega⟩
  have hopened : refuses (room + 1) [] (Goal.lookup subject interface []) = false := by
    simp [refuses]
  obtain ⟨detail, hresolve⟩ := r.resolveIn_opened hopened
  refine ⟨detail, ?_⟩
  have hsurvivors : r.survivors (room + 1) [] (Goal.lookup subject interface []) =
      impls.map (Implementation.survivor · r.env subject found) := by
    rw [survivors_succ, show (Goal.lookup subject interface []).interface = interface from rfl,
      himpls, ← List.filterMap_eq_map]
    apply List.filterMap_congr
    intro impl himpl
    exact assess_plain (hplain impl himpl) rfl htarget hmatch
  rw [resolve, start, hroom, hresolve, hsurvivors]
  cases impls with
  | nil => rfl
  | cons first rest =>
      have hlevel : ∀ a ∈ (first :: rest).map (Implementation.survivor · r.env subject found),
          ∀ b ∈ (first :: rest).map (Implementation.survivor · r.env subject found),
            r.compare a b = .eq := by
        intro a ha b hb
        obtain ⟨impl, himpl, rfl⟩ := List.mem_map.mp ha
        obtain ⟨other, hother, rfl⟩ := List.mem_map.mp hb
        exact compare_plain (hplain impl himpl) (hplain other hother) r.env subject
      have hsettle := settle_map (Implementation.survivor · r.env subject found)
        (fun survivor => survivor.impl.interfaceName) (first :: rest)
      rw [List.map_cons] at hlevel hsettle ⊢
      rw [select, select_level hlevel, hsettle]
      rfl

end Resolver

-- Where all implementations of an interface are without a name, all of them are candidates.
theorem Registry.filter_candidates {registry : Registry} {interfaces : List String}
    {interface : String} (hmem : interface ∈ interfaces)
    (hunnamed : ∀ impl ∈ registry.entries, impl.interfaceName = interface → impl.name = none) :
    (registry.candidates interfaces).filter (fun impl => impl.interfaceName = interface) =
      registry.forInterface interface := by
  rw [candidates, List.filter_filter, forInterface]
  apply List.filter_congr
  intro impl himpl
  by_cases hname : impl.interfaceName = interface
  · simp [hname, hmem, hunnamed impl himpl hname]
  · simp [hname]

theorem servingInterfaces_pair {pair : String × String} (hpair : pair ∈ priorityPairs) :
    servingInterfaces pair.2 = [pair.2, pair.1] := by
  revert pair
  decide

-- A lookup of the second interface of a pair, where all implementations of the two are plain
-- ones for one target, in any order and among any others: one implementation is taken, of one
-- of each kind the preferred one, and every other number of them is too many.
theorem priority_decides_one_of_each (r : Resolver) (pair : String × String)
    (hpair : pair ∈ priorityPairs) (target subject : Ty) (htarget : target.asInterface? = none)
    (found : Match) (hmatch : Ty.matchType subject target [] = some found)
    (hdepth : 1 ≤ r.options.maxDepth)
    (hplain : ∀ impl ∈ r.registry.entries,
      impl.interfaceName = pair.1 ∨ impl.interfaceName = pair.2 → impl.PlainFor target)
    (k m : Nat) (hk : (r.registry.forInterface pair.1).length = k)
    (hm : (r.registry.forInterface pair.2).length = m) :
    (k + m = 0 → ∃ refusal, r.resolve subject pair.2 [] = .unsatisfied refusal) ∧
    (k + m = 1 → ∀ impl ∈ r.registry.forInterface pair.1 ++ r.registry.forInterface pair.2,
      r.resolve subject pair.2 [] = .resolved
        ((impl.survivor r.env subject found).resolution (Goal.lookup subject pair.2 []))) ∧
    (k = 1 → m = 1 → ∀ impl ∈ r.registry.forInterface pair.1,
      r.resolve subject pair.2 [] = .resolved
        ((impl.survivor r.env subject found).resolution (Goal.lookup subject pair.2 []))) ∧
    (2 ≤ k + m → ¬ (k = 1 ∧ m = 1) →
      ∃ ambiguity, r.resolve subject pair.2 [] = .ambiguous ambiguity) := by
  -- The implementations of the two, in the order of the registry.
  obtain ⟨impls, himpls⟩ : ∃ impls, r.registry.candidates (servingInterfaces pair.2) = impls :=
    ⟨_, rfl⟩
  have hserving := servingInterfaces_pair hpair
  have hnames : ∀ impl ∈ impls, impl.interfaceName = pair.1 ∨ impl.interfaceName = pair.2 := by
    intro impl himpl
    rw [← himpls, hserving] at himpl
    simpa [or_comm] using (Registry.mem_candidates.mp himpl).2.2
  have hall : ∀ impl ∈ impls, impl.PlainFor target := by
    intro impl himpl
    refine hplain impl ?_ (hnames impl himpl)
    exact (Registry.mem_candidates.mp (himpls ▸ himpl)).1
  have hfirst : impls.filter (fun impl => impl.interfaceName = pair.1) =
      r.registry.forInterface pair.1 := by
    rw [← himpls, hserving]
    exact Registry.filter_candidates (by simp) fun impl himpl hname =>
      (hplain impl himpl (.inl hname)).unnamed
  have hsecond : impls.filter (fun impl => impl.interfaceName = pair.2) =
      r.registry.forInterface pair.2 := by
    rw [← himpls, hserving]
    exact Registry.filter_candidates (by simp) fun impl himpl hname =>
      (hplain impl himpl (.inr hname)).unnamed
  have hperm := filter_names_perm (priorityPairs_ne hpair) hnames
  rw [hfirst, hsecond] at hperm
  have hlength : impls.length = k + m := by
    rw [← hperm.length_eq, List.length_append, hk, hm]
  obtain ⟨detail, hresolve⟩ := Resolver.resolve_plain hdepth himpls hall htarget hmatch
  rw [hresolve]
  refine ⟨fun hnone => ?_, fun hone impl himpl => ?_, fun hk1 hm1 impl himpl => ?_,
    fun hmany hboth => ?_⟩
  · obtain rfl : impls = [] := List.length_eq_zero_iff.mp (hlength.trans hnone)
    exact ⟨_, rfl⟩
  · obtain ⟨only, rfl⟩ := List.length_eq_one_iff.mp (hlength.trans hone)
    obtain rfl : impl = only := List.mem_singleton.mp (hperm.mem_iff.mp himpl)
    rfl
  · obtain ⟨only, honly⟩ := List.length_eq_one_iff.mp (hk.trans hk1)
    obtain ⟨other, hother⟩ := List.length_eq_one_iff.mp (hm.trans hm1)
    rw [honly] at hfirst himpl
    rw [hother] at hsecond
    obtain rfl : impl = only := List.mem_singleton.mp himpl
    rw [settle_of_names hpair hnames (by omega), preferred?_one_of_each hnames hfirst hsecond,
      if_neg (by simpa using List.ne_nil_of_length_pos (by omega))]
    rfl
  · have hnone : preferred? Implementation.interfaceName pair impls = none := by
      apply preferred?_not_one_of_each
      rw [hfirst, hsecond]
      omega
    rw [settle_of_names hpair hnames (by omega), hnone,
      if_neg (by simpa using List.ne_nil_of_length_pos (by omega))]
    exact ⟨_, rfl⟩

namespace Points

-- Points are ordered in part by one implementation and in full by another.

def point : Ty := .declared .struct "Point" []

def impl (interface : String) : Implementation :=
  { interface := { name := interface }, target := point }

def resolver (interfaces : List String) : Resolver where
  env := ∅
  registry := ⟨interfaces.map impl⟩

theorem impl_plainFor (interface : String) : (impl interface).PlainFor point :=
  ⟨rfl, rfl, rfl, rfl, rfl, rfl⟩

end Points

-- The full order is taken for the partial one, and a second partial order spoils the choice.
theorem full_order_serves_partial :
    (Points.resolver ["PartialOrd", "Clone", "Ord"]).resolve Points.point "PartialOrd" [] =
        .resolved ⟨"PartialOrd", "impl Ord for Point", ⟨[("Self", Points.point)]⟩, 1, false⟩ ∧
      ∃ ambiguity, (Points.resolver ["PartialOrd", "Ord", "PartialOrd"]).resolve Points.point
        "PartialOrd" [] = .ambiguous ambiguity := by
  have hplain (interfaces : List String) (impl : Implementation)
      (himpl : impl ∈ (Points.resolver interfaces).registry.entries) :
      impl.PlainFor Points.point := by
    obtain ⟨interface, -, rfl⟩ := List.mem_map.mp himpl
    exact Points.impl_plainFor interface
  constructor
  · exact (priority_decides_one_of_each (Points.resolver ["PartialOrd", "Clone", "Ord"])
      ("Ord", "PartialOrd") (by decide) Points.point Points.point rfl ⟨∅, 1⟩ rfl (by decide)
      (fun impl himpl _ => hplain _ impl himpl) 1 1 rfl rfl).2.2.1 rfl rfl (Points.impl "Ord")
      (by decide +kernel)
  · exact (priority_decides_one_of_each (Points.resolver ["PartialOrd", "Ord", "PartialOrd"])
      ("Ord", "PartialOrd") (by decide) Points.point Points.point rfl ⟨∅, 1⟩ rfl (by decide)
      (fun impl himpl _ => hplain _ impl himpl) 1 2 rfl rfl).2.2.2 (by decide) (by decide)

end Conformance
