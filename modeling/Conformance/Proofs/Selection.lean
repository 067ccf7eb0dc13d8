import Conformance.Proofs.LabelSet
import Mathlib.Logic.Relation

namespace Conformance

-- The comparison of survivors is oriented: asked the other way round it gives the
-- reverse answer. It is not transitive, because constraint sets that do not include one
-- another are passed over and the scores decide.

theorem strictSuperset_asymm {a b : List String} (h : strictSuperset a b = true) :
    strictSuperset b a = false := by
  simp only [strictSuperset, Bool.and_eq_true, decide_eq_true_eq] at h
  have hlen : ¬ a.length < b.length := by omega
  simp [strictSuperset, hlen]

theorem properSubset_asymm {a b : List String} (h : properSubset a b = true) :
    properSubset b a = false := by
  simp only [properSubset, Bool.and_eq_true, decide_eq_true_eq] at h
  have hlen : ¬ b.length < a.length := by omega
  simp [properSubset, hlen]

theorem compareVariants_swap (a b : List String) :
    compareVariants a b = (compareVariants b a).map Ordering.swap := by
  unfold compareVariants
  cases ha : a.isEmpty <;> cases hb : b.isEmpty <;> simp only [Option.map_some, Option.map_none,
    Ordering.swap]
  by_cases hab : properSubset a b = true
  · simp [hab, properSubset_asymm hab]
  by_cases hba : properSubset b a = true
  · simp [hab, hba]
  by_cases heq : a = b
  · subst heq
    simp [hab]
  simp only [hab, hba, heq, Ne.symm heq, Bool.false_eq_true, if_false, ne_eq, not_false_eq_true,
    if_true, Option.map_some]
  rw [Nat.compare_swap]

theorem Survivor.compare_swap (preferUser : Bool) (a b : Survivor) :
    a.compare preferUser b = (b.compare preferUser a).swap := by
  unfold Survivor.compare
  by_cases hconcrete : a.impl.isConcrete = b.impl.isConcrete
  · simp only [hconcrete, ne_eq, not_true_eq_false, if_false]
    by_cases hab : strictSuperset a.impl.constraintKeys b.impl.constraintKeys = true
    · simp [hab, strictSuperset_asymm hab]
    by_cases hba : strictSuperset b.impl.constraintKeys a.impl.constraintKeys = true
    · simp [hab, hba]
    simp only [hab, hba, Bool.false_eq_true, if_false]
    rw [compareVariants_swap a.impl.variants]
    cases compareVariants b.impl.variants a.impl.variants with
    | some decided => rfl
    | none =>
        simp only [Option.map_none]
        rw [← Nat.compare_swap b.score a.score]
        cases Ord.compare b.score a.score <;>
          cases preferUser <;> cases a.impl.isBuiltin <;> cases b.impl.isBuiltin <;> simp
  · cases ha : a.impl.isConcrete <;> cases hb : b.impl.isConcrete <;> simp_all

instance (preferUser : Bool) : Std.OrientedCmp (Survivor.compare preferUser) :=
  ⟨Survivor.compare_swap preferUser _ _⟩

-- Between survivors that are equally concrete, the one with more constraints is greater.
theorem Survivor.compare_of_more_keys (preferUser : Bool) {a b : Survivor}
    (hconcrete : a.impl.isConcrete = b.impl.isConcrete)
    (hsub : b.impl.constraintKeys ⊆ a.impl.constraintKeys)
    (hnot : ¬ a.impl.constraintKeys ⊆ b.impl.constraintKeys) :
    a.compare preferUser b = .gt := by
  have hsuper := (strictSuperset_iff a.impl.constraintKeys_nodup b.impl.constraintKeys_nodup).mpr
    ⟨hsub, hnot⟩
  simp [Survivor.compare, hconcrete, hsuper]

namespace Scan

variable {α : Type} {cmp : α → α → Ordering}

theorem step_gt {scan : Scan α} {candidate : α} (h : cmp candidate scan.best = .gt) :
    step cmp scan candidate = ⟨candidate, []⟩ := by
  simp [step, h]

theorem step_lt {scan : Scan α} {candidate : α} (h : cmp candidate scan.best = .lt) :
    step cmp scan candidate = scan := by
  simp [step, h]

-- The second question of a step is settled by the first one.
theorem step_eq [Std.OrientedCmp cmp] {scan : Scan α} {candidate : α}
    (h : cmp candidate scan.best = .eq) :
    step cmp scan candidate = ⟨scan.best, scan.ties ++ [candidate]⟩ := by
  simp [step, h, Std.OrientedCmp.eq_symm h]

-- A scan holds nothing but what it has met.
theorem contenders_step_subset [Std.OrientedCmp cmp] (scan : Scan α) (candidate : α) :
    (step cmp scan candidate).contenders ⊆ candidate :: scan.contenders := by
  cases h : cmp candidate scan.best with
  | gt => simp [step_gt h, contenders]
  | lt => simp [step_lt h]
  | eq =>
      rw [step_eq h]
      intro x hx
      simp only [contenders, List.mem_cons, List.mem_append, List.not_mem_nil, or_false] at hx ⊢
      tauto

theorem contenders_foldl_subset [Std.OrientedCmp cmp] (rest : List α) (scan : Scan α) :
    (rest.foldl (step cmp) scan).contenders ⊆ scan.contenders ++ rest := by
  induction rest generalizing scan with
  | nil => simp
  | cons candidate rest ih =>
      intro x hx
      rcases List.mem_append.mp (ih (step cmp scan candidate) hx) with hx | hx
      · rcases List.mem_cons.mp (contenders_step_subset scan candidate hx) with rfl | hx
        · simp
        · exact List.mem_append_left _ hx
      · exact List.mem_append_right _ (List.mem_cons_of_mem _ hx)

end Scan

section Circles

variable {α : Type} {cmp : α → α → Ordering} {among seen : List α} {scan : Scan α}

-- A chain of candidates leads down from the first to the second, each of them at least
-- as specific as the next.
def Above (cmp : α → α → Ordering) (among : List α) : α → α → Prop :=
  Relation.ReflTransGen fun a b => b ∈ among ∧ cmp a b ≠ .lt

-- A candidate is beaten by one that it stands above.
def Circular (cmp : α → α → Ordering) (among : List α) (candidate : α) : Prop :=
  ∃ rival ∈ among, cmp rival candidate = .gt ∧ Above cmp among candidate rival

structure Scan.Surveys (cmp : α → α → Ordering) (among seen : List α) (scan : Scan α) : Prop where
  best_mem : scan.best ∈ among
  above : ∀ x ∈ seen, Above cmp among scan.best x
  level : ∀ tie ∈ scan.ties, cmp tie scan.best = .eq

namespace Scan.Surveys

theorem step [Std.OrientedCmp cmp] (h : Surveys cmp among seen scan) {candidate : α}
    (hc : candidate ∈ among) : Surveys cmp among (candidate :: seen) (scan.step cmp candidate) := by
  cases hcmp : cmp candidate scan.best with
  | gt =>
      rw [step_gt hcmp]
      refine ⟨hc, ?_, by simp⟩
      -- The old best one is the first link down from the new one.
      have hlink : Above cmp among candidate scan.best :=
        .single ⟨h.best_mem, by simp [hcmp]⟩
      intro x hx
      rcases List.mem_cons.mp hx with rfl | hx
      · exact .refl
      · exact hlink.trans (h.above x hx)
  | lt =>
      rw [step_lt hcmp]
      refine ⟨h.best_mem, ?_, h.level⟩
      intro x hx
      rcases List.mem_cons.mp hx with rfl | hx
      · exact .single ⟨hc, by simp [Std.OrientedCmp.gt_of_lt hcmp]⟩
      · exact h.above x hx
  | eq =>
      rw [step_eq hcmp]
      refine ⟨h.best_mem, ?_, ?_⟩
      · intro x hx
        rcases List.mem_cons.mp hx with rfl | hx
        · exact .single ⟨hc, by simp [Std.OrientedCmp.eq_symm hcmp]⟩
        · exact h.above x hx
      · intro tie htie
        rcases List.mem_append.mp htie with htie | htie
        · exact h.level tie htie
        · rw [List.mem_singleton.mp htie]
          exact hcmp

theorem foldl [Std.OrientedCmp cmp] (h : Surveys cmp among seen scan) (rest : List α)
    (hrest : rest ⊆ among) :
    Surveys cmp among (rest.reverse ++ seen) (rest.foldl (Scan.step cmp) scan) := by
  induction rest generalizing scan seen with
  | nil => simpa using h
  | cons candidate rest ih =>
      have hc : candidate ∈ among := hrest List.mem_cons_self
      have hnext := ih (h.step hc) (fun x hx => hrest (List.mem_cons_of_mem _ hx))
      simpa using hnext

theorem run [Std.OrientedCmp cmp] (first : α) (rest : List α) :
    Surveys cmp (first :: rest) (first :: rest) (Scan.run cmp first rest) := by
  have hstart : Surveys cmp (first :: rest) [first] ⟨first, []⟩ := by
    refine ⟨List.mem_cons_self, ?_, by simp⟩
    intro x hx
    rw [List.mem_singleton.mp hx]
    exact .refl
  have hend := hstart.foldl rest (fun x hx => List.mem_cons_of_mem _ hx)
  refine ⟨hend.best_mem, ?_, hend.level⟩
  intro x hx
  apply hend.above
  rcases List.mem_cons.mp hx with rfl | hx <;> simp [*]

-- Whatever ties with the best candidate stands above all that was met, like the best.
theorem contender_above (h : Surveys cmp among seen scan) {contender x : α}
    (hcontender : contender ∈ scan.contenders) (hx : x ∈ seen) : Above cmp among contender x := by
  rcases List.mem_cons.mp hcontender with rfl | htie
  · exact h.above x hx
  · have hlink : Above cmp among contender scan.best :=
      .single ⟨h.best_mem, by simp [h.level contender htie]⟩
    exact hlink.trans (h.above x hx)

end Scan.Surveys

end Circles

section Choices

variable {α : Type} {cmp : α → α → Ordering} {name : α → String}

def settle (name : α → String) : List α → Choice α
  | [only] => .winner only
  | tied =>
      match priorityPairs.findSome? fun pair => preferred? name pair tied with
      | some candidate => .winner candidate
      | none => .tied tied

theorem choose_eq_settle (first : α) (rest : List α) :
    choose cmp name first rest = settle name (Scan.run cmp first rest).contenders := rfl

-- Candidates of two names are those of the one and those of the other.
theorem filter_names_perm {pair : String × String} (hne : pair.1 ≠ pair.2) {tied : List α}
    (hnames : ∀ a ∈ tied, name a = pair.1 ∨ name a = pair.2) :
    (tied.filter (fun a => name a = pair.1) ++ tied.filter fun a => name a = pair.2).Perm tied := by
  have hrest : tied.filter (fun a => name a = pair.2) =
      tied.filter fun a => !decide (name a = pair.1) := by
    apply List.filter_congr
    intro a ha
    rcases hnames a ha with h | h
    · simp [h, hne]
    · simp [h, hne.symm]
  rw [hrest]
  exact List.filter_append_perm _ tied

-- A pair of names decides only between one candidate of each.
theorem preferred?_eq_some {pair : String × String} (hpair : pair.1 ≠ pair.2) {tied : List α}
    {candidate : α} (h : preferred? name pair tied = some candidate) :
    ∃ other, tied.Perm [candidate, other] ∧ name candidate = pair.1 ∧ name other = pair.2 := by
  unfold preferred? at h
  split_ifs at h with hall
  split at h
  · rename_i preferred other hfirst hsecond
    obtain rfl : preferred = candidate := by simpa using h
    have hname : preferred ∈ tied.filter fun x => name x = pair.1 := by simp [hfirst]
    have hother : other ∈ tied.filter fun x => name x = pair.2 := by simp [hsecond]
    refine ⟨other, ?_, by simpa using (List.mem_filter.mp hname).2,
      by simpa using (List.mem_filter.mp hother).2⟩
    have hsplit := filter_names_perm hpair fun x hx => by
      simpa using List.all_eq_true.mp hall x hx
    rw [hfirst, hsecond] at hsplit
    exact hsplit.symm
  · simp at h

theorem priorityPairs_ne {pair : String × String} (h : pair ∈ priorityPairs) :
    pair.1 ≠ pair.2 := by
  revert pair
  decide

-- A winner stood alone, or it was the preferred one of two with different names.
theorem settle_eq_winner {contenders : List α} {winner : α}
    (h : settle name contenders = .winner winner) :
    contenders = [winner] ∨
      ∃ other, contenders.Perm [winner, other] ∧ name winner ≠ name other := by
  unfold settle at h
  split at h
  · left
    simpa using h
  · right
    split at h
    · rename_i candidate hfound
      obtain ⟨pair, hpair, hpreferred⟩ := List.exists_of_findSome?_eq_some hfound
      obtain ⟨other, hperm, hname, hother⟩ :=
        preferred?_eq_some (priorityPairs_ne hpair) hpreferred
      obtain rfl : candidate = winner := by simpa using h
      refine ⟨other, hperm, ?_⟩
      rw [hname, hother]
      exact priorityPairs_ne hpair
    · simp at h

theorem settle_eq_tied {contenders tied : List α} (h : settle name contenders = .tied tied) :
    contenders = tied := by
  unfold settle at h
  split at h
  · simp at h
  · split at h
    · simp at h
    · simpa using h

theorem winner_mem_contenders {contenders : List α} {winner : α}
    (h : settle name contenders = .winner winner) : winner ∈ contenders := by
  rcases settle_eq_winner h with rfl | ⟨other, hperm, -⟩
  · exact List.mem_singleton_self winner
  · exact hperm.mem_iff.mpr List.mem_cons_self

theorem choose_winner_mem [Std.OrientedCmp cmp] {first : α} {rest : List α} {winner : α}
    (h : choose cmp name first rest = .winner winner) : winner ∈ first :: rest := by
  rw [choose_eq_settle] at h
  simpa [Scan.contenders] using
    Scan.contenders_foldl_subset rest ⟨first, []⟩ (winner_mem_contenders h)

theorem choose_winner_above [Std.OrientedCmp cmp] {first : α} {rest : List α} {winner x : α}
    (h : choose cmp name first rest = .winner winner) (hx : x ∈ first :: rest) :
    Above cmp (first :: rest) winner x := by
  rw [choose_eq_settle] at h
  exact (Scan.Surveys.run first rest).contender_above (winner_mem_contenders h) hx

end Choices

-- The winner is beaten exactly where the comparison runs in a circle through it: some
-- survivor beats the winner, although the winner stands above it through others. Without
-- such a circle no survivor that is as concrete and more constrained is passed over.
theorem winner_beaten_iff_circular (preferUser : Bool) (first : Survivor) (rest : List Survivor)
    (winner : Survivor)
    (h : choose (Survivor.compare preferUser) (fun survivor => survivor.impl.interfaceName)
      first rest = .winner winner) :
    winner ∈ first :: rest ∧
      ((∃ rival ∈ first :: rest, rival.compare preferUser winner = .gt) ↔
        Circular (Survivor.compare preferUser) (first :: rest) winner) ∧
      (¬ Circular (Survivor.compare preferUser) (first :: rest) winner →
        ∀ rival ∈ first :: rest, rival.impl.isConcrete = winner.impl.isConcrete →
          winner.impl.constraintKeys ⊆ rival.impl.constraintKeys →
            rival.impl.constraintKeys ⊆ winner.impl.constraintKeys) := by
  have hbeaten : ∀ rival ∈ first :: rest, rival.compare preferUser winner = .gt →
      Circular (Survivor.compare preferUser) (first :: rest) winner :=
    fun rival hrival hgt => ⟨rival, hrival, hgt, choose_winner_above h hrival⟩
  refine ⟨choose_winner_mem h, ⟨?_, ?_⟩, ?_⟩
  · rintro ⟨rival, hrival, hgt⟩
    exact hbeaten rival hrival hgt
  · rintro ⟨rival, hrival, hgt, -⟩
    exact ⟨rival, hrival, hgt⟩
  · intro hnone rival hrival hconcrete hsub
    by_contra hnot
    have hgt := Survivor.compare_of_more_keys preferUser hconcrete hsub hnot
    exact hnone (hbeaten rival hrival hgt)

namespace Circle

-- Three implementations of one interface for arrays of arrays. The general one is more
-- constrained than the nested one, the nested one matches more than the flat one, and
-- the flat one matches more than the general one.

def bounded (param : String) (bounds : List String) (target : Ty) : Implementation :=
  Implementation.deriveObligations {
    interface := { name := "Show" }
    generics := [⟨param, bounds.map fun bound => .declared .interface bound []⟩]
    target := target }

def generalImpl : Implementation := bounded "T" ["Display", "Clone"] (.param "T")

def nestedImpl : Implementation :=
  bounded "T" ["Display"] (.unary .array (.unary .array (.param "T")))

def flatImpl : Implementation := bounded "U" ["Hash"] (.unary .array (.param "U"))

def row : Ty := .unary .array .bool

def subject : Ty := .unary .array row

def general : Survivor := ⟨generalImpl, ⟨[("T", subject), ("Self", subject)]⟩, [], 0⟩

def nested : Survivor :=
  ⟨nestedImpl, ⟨[("T", .bool), ("Self", subject)]⟩, [], 2⟩

def flat : Survivor := ⟨flatImpl, ⟨[("U", row), ("Self", subject)]⟩, [], 1⟩

end Circle

-- In this order the scan goes from the general survivor over the flat one to the nested
-- one, and never comes back to the first, which beats it.
theorem more_constrained_survivor_passed_over :
    choose (Survivor.compare true) (fun survivor => survivor.impl.interfaceName)
        Circle.general [Circle.flat, Circle.nested] = .winner Circle.nested ∧
      Circle.general.compare true Circle.nested = .gt ∧
      Circle.general.impl.isConcrete = Circle.nested.impl.isConcrete ∧
      Circle.nested.impl.constraintKeys ⊆ Circle.general.impl.constraintKeys ∧
      ¬ Circle.general.impl.constraintKeys ⊆ Circle.nested.impl.constraintKeys := by
  refine ⟨rfl, by decide, by decide, by decide, by decide⟩

-- The choice above as an instance: its winner stands in a circle.
theorem nested_winner_circular :
    choose (Survivor.compare true) (fun survivor => survivor.impl.interfaceName)
        Circle.general [Circle.flat, Circle.nested] = .winner Circle.nested ∧
      Circular (Survivor.compare true) [Circle.general, Circle.flat, Circle.nested]
        Circle.nested := by
  have h : choose (Survivor.compare true) (fun survivor => survivor.impl.interfaceName)
      Circle.general [Circle.flat, Circle.nested] = .winner Circle.nested := rfl
  have hiff := (winner_beaten_iff_circular true Circle.general [Circle.flat, Circle.nested]
    Circle.nested h).2.1
  exact ⟨h, hiff.mp ⟨Circle.general, by simp, by decide⟩⟩

end Conformance
