import Conformance.Proofs.Selection
import Mathlib.Data.List.Perm.Basic

namespace Conformance

section Leaders

variable {α : Type} {cmp : α → α → Ordering} {name : α → String}

-- A leader beats every candidate that is not level with it, and those level with it
-- compare with all the others just as it does.
structure Leads (cmp : α → α → Ordering) (among : List α) (leader : α) : Prop where
  mem : leader ∈ among
  beats : ∀ x ∈ among, cmp leader x = .gt ∨
    cmp leader x = .eq ∧ ∀ y ∈ among, cmp x y = cmp leader y

def Decisive (cmp : α → α → Ordering) (among : List α) : Prop :=
  among = [] ∨ ∃ leader, Leads cmp among leader

theorem Leads.of_perm {among others : List α} {leader : α} (h : Leads cmp among leader)
    (hperm : among.Perm others) : Leads cmp others leader := by
  refine ⟨hperm.mem_iff.mp h.mem, fun x hx => ?_⟩
  rcases h.beats x (hperm.mem_iff.mpr hx) with hgt | ⟨heq, hlike⟩
  · exact .inl hgt
  · exact .inr ⟨heq, fun y hy => hlike y (hperm.mem_iff.mpr hy)⟩

-- A circle takes three candidates.
theorem decisive_of_length_le_two [Std.OrientedCmp cmp] {among : List α}
    (h : among.length ≤ 2) : Decisive cmp among := by
  have hself {x : α} : cmp x x = .eq := Std.ReflCmp.compare_self
  rcases among with _ | ⟨a, _ | ⟨b, _ | ⟨c, rest⟩⟩⟩
  · exact .inl rfl
  · exact .inr ⟨a, by simp, by simp [hself]⟩
  · right
    cases hab : cmp a b with
    | gt => exact ⟨a, by simp, by simp [hself, hab]⟩
    | lt => exact ⟨b, by simp, by simp [hself, Std.OrientedCmp.gt_of_lt hab]⟩
    | eq => exact ⟨a, by simp, by simp [hself, hab, Std.OrientedCmp.eq_symm hab]⟩
  · simp at h

-- Candidates that are told apart by a part of them are decided by that part.
theorem decisive_map {β : Type} (part : β → α) {among : List β}
    (h : Decisive cmp (among.map part)) :
    Decisive (fun a b => cmp (part a) (part b)) among := by
  rcases h with hnil | ⟨leader, hmem, hbeats⟩
  · exact .inl (List.map_eq_nil_iff.mp hnil)
  · obtain ⟨whole, hwhole, rfl⟩ := List.mem_map.mp hmem
    refine .inr ⟨whole, hwhole, fun x hx => ?_⟩
    rcases hbeats (part x) (List.mem_map_of_mem hx) with hgt | ⟨heq, hlike⟩
    · exact .inl hgt
    · exact .inr ⟨heq, fun y hy => hlike (part y) (List.mem_map_of_mem hy)⟩

namespace Scan

-- What a scan holds once it has met a leader or one level with it: all of those met so
-- far, in order. Before that its best candidate is one that the leader beats.
def Follows (cmp : α → α → Ordering) (leader : α) (seen : List α) (scan : Scan α) : Prop :=
  cmp leader scan.best = .gt ∧ seen.filter (fun x => cmp leader x = .eq) = [] ∨
    cmp leader scan.best = .eq ∧
      scan.contenders = seen.filter (fun x => cmp leader x = .eq)

theorem Follows.step [Std.OrientedCmp cmp] {among seen : List α} {leader candidate : α}
    {scan : Scan α} (h : Follows cmp leader seen scan) (hleads : Leads cmp among leader)
    (hbest : scan.best ∈ among) (hc : candidate ∈ among) :
    Follows cmp leader (seen ++ [candidate]) (scan.step cmp candidate) := by
  rcases hleads.beats candidate hc with hgt | ⟨heq, hlike⟩
  · -- The candidate is beaten by the leader and changes nothing that counts.
    have hfilter : (seen ++ [candidate]).filter (fun x => cmp leader x = .eq) =
        seen.filter fun x => cmp leader x = .eq := by
      simp [hgt]
    rcases h with ⟨hover, hnone⟩ | ⟨hlevel, hall⟩
    · left
      refine ⟨?_, hfilter.trans hnone⟩
      cases hcmp : cmp candidate scan.best with
      | gt => simpa [step_gt hcmp] using hgt
      | lt => simpa [step_lt hcmp] using hover
      | eq => simpa [step_eq hcmp] using hover
    · -- The best one is level with the leader, so it beats the candidate too.
      have hbeats : cmp scan.best candidate = .gt := by
        rcases hleads.beats scan.best hbest with hover | ⟨-, hlike⟩
        · simp [hlevel] at hover
        · rw [hlike candidate hc, hgt]
      right
      rw [step_lt (Std.OrientedCmp.lt_of_gt hbeats), hfilter]
      exact ⟨hlevel, hall⟩
  · -- The candidate is level with the leader.
    have hfilter : (seen ++ [candidate]).filter (fun x => cmp leader x = .eq) =
        seen.filter (fun x => cmp leader x = .eq) ++ [candidate] := by
      simp [heq]
    right
    rcases h with ⟨hover, hnone⟩ | ⟨hlevel, hall⟩
    · rw [step_gt ((hlike _ hbest).trans hover), hfilter, hnone]
      exact ⟨heq, rfl⟩
    · rw [step_eq ((hlike _ hbest).trans hlevel), hfilter, ← hall]
      exact ⟨hlevel, rfl⟩

theorem best_step_mem [Std.OrientedCmp cmp] {among : List α} {scan : Scan α} {candidate : α}
    (hbest : scan.best ∈ among) (hc : candidate ∈ among) :
    (scan.step cmp candidate).best ∈ among := by
  cases hcmp : cmp candidate scan.best with
  | gt => simpa [step_gt hcmp] using hc
  | lt => simpa [step_lt hcmp] using hbest
  | eq => simpa [step_eq hcmp] using hbest

theorem Follows.foldl [Std.OrientedCmp cmp] {among seen : List α} {leader : α} {scan : Scan α}
    (h : Follows cmp leader seen scan) (hleads : Leads cmp among leader)
    (hbest : scan.best ∈ among) (rest : List α) (hrest : rest ⊆ among) :
    Follows cmp leader (seen ++ rest) (rest.foldl (Scan.step cmp) scan) := by
  induction rest generalizing scan seen with
  | nil => simpa using h
  | cons candidate rest ih =>
      have hc : candidate ∈ among := hrest List.mem_cons_self
      have hnext := ih (h.step hleads hbest hc) (best_step_mem hbest hc)
        (fun x hx => hrest (List.mem_cons_of_mem _ hx))
      simpa using hnext

-- The contenders under a leader are the candidates level with it, whatever the order.
theorem contenders_eq_filter [Std.OrientedCmp cmp] {first leader : α} {rest : List α}
    (hleads : Leads cmp (first :: rest) leader) :
    (run cmp first rest).contenders =
      (first :: rest).filter fun x => cmp leader x = .eq := by
  have hstart : Follows cmp leader [first] ⟨first, []⟩ := by
    rcases hleads.beats first List.mem_cons_self with hgt | ⟨heq, -⟩
    · left
      simp [hgt]
    · right
      simp [heq, contenders]
  have hend := hstart.foldl hleads List.mem_cons_self rest
    (fun x hx => List.mem_cons_of_mem _ hx)
  rcases hend with ⟨-, hnone⟩ | ⟨-, hall⟩
  · -- The leader itself is level with it.
    have hself : leader ∈ (first :: rest).filter fun x => cmp leader x = .eq :=
      List.mem_filter.mpr ⟨hleads.mem, by simp [Std.ReflCmp.compare_self]⟩
    simp only [List.singleton_append] at hnone
    simp [hnone] at hself
  · simpa [run] using hall

end Scan

-- Two choices agree that name the same winner, or the same ties in any order.
def Choice.Agrees : Choice α → Choice α → Prop
  | .winner a, .winner b => a = b
  | .tied as, .tied bs => as.Perm bs
  | _, _ => False

theorem preferred?_perm (pair : String × String) {tied others : List α}
    (hperm : tied.Perm others) : preferred? name pair tied = preferred? name pair others := by
  have hall : (tied.all fun x => name x = pair.1 || name x = pair.2) =
      others.all fun x => name x = pair.1 || name x = pair.2 := hperm.all_eq
  have hone {p : α → Bool} {x : α} : tied.filter p = [x] ↔ others.filter p = [x] := by
    rw [← List.perm_singleton, ← List.perm_singleton]
    exact ⟨(hperm.filter p).symm.trans, (hperm.filter p).trans⟩
  unfold preferred?
  rw [hall]
  split_ifs
  · split
    · rename_i hfirst hsecond
      simp [hone.mp hfirst, hone.mp hsecond]
    · rename_i hnone
      split
      · rename_i hfirst hsecond
        exact absurd (hone.mpr hsecond) (hnone _ _ (hone.mpr hfirst))
      · rfl
  · rfl

theorem settle_of_not_single {tied : List α} (h : ¬ ∃ only, tied = [only]) :
    settle name tied =
      (priorityPairs.findSome? fun pair => preferred? name pair tied).elim (.tied tied) .winner := by
  unfold settle
  split
  · exact absurd ⟨_, rfl⟩ h
  · cases priorityPairs.findSome? fun pair => preferred? name pair tied with
    | none => rfl
    | some candidate => rfl

theorem settle_perm {contenders others : List α} (hperm : contenders.Perm others) :
    (settle name contenders).Agrees (settle name others) := by
  by_cases hone : ∃ only, contenders = [only]
  · obtain ⟨only, rfl⟩ := hone
    rw [List.perm_singleton.mp hperm.symm]
    simp [settle, Choice.Agrees]
  · have hother : ¬ ∃ only, others = [only] := by
      rintro ⟨only, rfl⟩
      exact hone ⟨only, List.perm_singleton.mp hperm⟩
    rw [settle_of_not_single hone, settle_of_not_single hother]
    simp only [preferred?_perm _ hperm]
    cases priorityPairs.findSome? fun pair => preferred? name pair others with
    | none => exact hperm
    | some candidate => rfl

def select (cmp : α → α → Ordering) (name : α → String) : List α → Option (Choice α)
  | [] => none
  | first :: rest => some (choose cmp name first rest)

theorem mem_of_select_winner [Std.OrientedCmp cmp] {among : List α} {winner : α}
    (h : select cmp name among = some (.winner winner)) : winner ∈ among := by
  cases among with
  | nil => simp [select] at h
  | cons first rest =>
      rw [select, Option.some.injEq] at h
      exact choose_winner_mem h

def SelectsAlike (cmp : α → α → Ordering) (name : α → String) (among others : List α) : Prop :=
  Option.Rel Choice.Agrees (select cmp name among) (select cmp name others)

theorem Leads.selectsAlike [Std.OrientedCmp cmp] {among others : List α} {leader : α}
    (hleads : Leads cmp among leader) (hperm : among.Perm others) :
    SelectsAlike cmp name among others := by
  cases among with
  | nil => exact absurd hleads.mem List.not_mem_nil
  | cons first rest =>
      cases others with
      | nil => exact absurd hperm.eq_nil (List.cons_ne_nil _ _)
      | cons other others =>
          refine .some ?_
          rw [choose_eq_settle, choose_eq_settle, Scan.contenders_eq_filter hleads,
            Scan.contenders_eq_filter (hleads.of_perm hperm)]
          exact settle_perm (hperm.filter _)

theorem Decisive.selectsAlike [Std.OrientedCmp cmp] {among others : List α}
    (h : Decisive cmp among) (hperm : among.Perm others) : SelectsAlike cmp name among others := by
  rcases h with rfl | ⟨leader, hleads⟩
  · obtain rfl : others = [] := hperm.nil_eq.symm
    exact .none
  · exact hleads.selectsAlike hperm

end Leaders

section Necessity

variable {α : Type} {cmp : α → α → Ordering} {name : α → String}

-- A contender that does not come again shows that the scan was never started anew.
theorem Scan.foldl_unmoved [Std.OrientedCmp cmp] {best kept : α} {ties rest : List α}
    (hkept : kept ∉ rest)
    (hmem : kept ∈ (rest.foldl (Scan.step cmp) ⟨best, ties⟩).contenders) :
    (∀ x ∈ rest, cmp x best ≠ .gt) ∧
      rest.foldl (Scan.step cmp) ⟨best, ties⟩ =
        ⟨best, ties ++ rest.filter fun x => cmp x best = .eq⟩ := by
  induction rest generalizing ties with
  | nil => simp
  | cons x rest ih =>
      have hrest : kept ∉ rest := fun h => hkept (List.mem_cons_of_mem _ h)
      simp only [List.foldl_cons] at hmem ⊢
      cases hcmp : cmp x best with
      | gt =>
          rw [step_gt hcmp] at hmem
          rcases List.mem_append.mp (contenders_foldl_subset rest _ hmem) with hx | hx
          · have hx : kept = x := by simpa [contenders] using hx
            exact absurd (hx ▸ List.mem_cons_self) hkept
          · exact absurd hx hrest
      | lt =>
          rw [step_lt hcmp] at hmem ⊢
          obtain ⟨hnone, hend⟩ := ih hrest hmem
          exact ⟨List.forall_mem_cons.mpr ⟨by simp [hcmp], hnone⟩, by simp [hend, hcmp]⟩
      | eq =>
          rw [step_eq hcmp] at hmem ⊢
          obtain ⟨hnone, hend⟩ := ih hrest hmem
          exact ⟨List.forall_mem_cons.mpr ⟨by simp [hcmp], hnone⟩, by simp [hend, hcmp]⟩

theorem Scan.foldl_replicate [Std.OrientedCmp cmp] (best : α) (ties : List α) (n : Nat) :
    (List.replicate n best).foldl (Scan.step cmp) ⟨best, ties⟩ =
      ⟨best, ties ++ List.replicate n best⟩ := by
  induction n generalizing ties with
  | zero => simp
  | succ n ih =>
      have hself : cmp best best = .eq := Std.ReflCmp.compare_self
      rw [List.replicate_succ, List.foldl_cons, step_eq hself, ih]
      simp

-- A candidate can be moved to the front of its list, together with its repeats.
theorem exists_perm_front [DecidableEq α] {x : α} {among : List α} (hx : x ∈ among) :
    ∃ n rest, among.Perm (x :: (List.replicate n x ++ rest)) ∧ x ∉ rest := by
  refine ⟨among.count x - 1, among.filter fun y => !decide (y = x), ?_, by simp⟩
  have hcount : 0 < among.count x := List.count_pos_iff.mpr hx
  have hsplit := List.filter_append_perm (fun y => decide (y = x)) among
  have hcopies : among.filter (fun y => decide (y = x)) =
      x :: List.replicate (among.count x - 1) x := by
    rw [List.filter_eq, ← List.replicate_succ]
    congr 1
    omega
  rw [hcopies] at hsplit
  exact hsplit.symm

-- A candidate that is a contender when it comes first is beaten by none, and what ties
-- with it are the contenders.
theorem Scan.contenders_front [Std.OrientedCmp cmp] {x : α} {n : Nat} {rest : List α}
    (hx : x ∉ rest)
    (hmem : x ∈ (Scan.run cmp x (List.replicate n x ++ rest)).contenders) :
    (∀ y ∈ rest, cmp y x ≠ .gt) ∧
      (Scan.run cmp x (List.replicate n x ++ rest)).contenders =
        x :: (List.replicate n x ++ rest.filter fun y => cmp y x = .eq) := by
  simp only [Scan.run, List.foldl_append, foldl_replicate, List.nil_append] at hmem ⊢
  obtain ⟨hnone, hend⟩ := foldl_unmoved hx hmem
  exact ⟨hnone, by rw [hend]; rfl⟩

-- If every order ends in the same tie, each member of it is beaten by none and ties with
-- exactly the other members.
theorem level_of_tied [DecidableEq α] [Std.OrientedCmp cmp] {among tied : List α}
    (hall : ∀ first rest, among.Perm (first :: rest) →
      (Choice.tied tied).Agrees (choose cmp name first rest))
    {x : α} (hx : x ∈ tied) (hmem : x ∈ among) :
    (∀ y ∈ among, cmp y x ≠ .gt) ∧ ∀ y, y ∈ tied ↔ y ∈ among ∧ cmp y x = .eq := by
  obtain ⟨n, rest, hperm, hrest⟩ := exists_perm_front hmem
  have hagrees := hall x (List.replicate n x ++ rest) hperm
  cases hchoice : choose cmp name x (List.replicate n x ++ rest) with
  | winner winner => simp [hchoice, Choice.Agrees] at hagrees
  | tied others =>
      have hsame : tied.Perm others := by simpa [hchoice, Choice.Agrees] using hagrees
      rw [choose_eq_settle] at hchoice
      have hcontenders := settle_eq_tied hchoice
      have hfront : x ∈ (Scan.run cmp x (List.replicate n x ++ rest)).contenders := by
        rw [hcontenders]
        exact hsame.mem_iff.mp hx
      obtain ⟨hnone, hlist⟩ := Scan.contenders_front hrest hfront
      have hself : cmp x x = .eq := Std.ReflCmp.compare_self
      refine ⟨fun y hy => ?_, fun y => ?_⟩
      · have hy := hperm.mem_iff.mp hy
        simp only [List.mem_cons, List.mem_append, List.mem_replicate] at hy
        rcases hy with rfl | ⟨-, rfl⟩ | hy
        · simp [hself]
        · simp [hself]
        · exact hnone y hy
      · rw [hsame.mem_iff, ← hcontenders, hlist, hperm.mem_iff]
        simp only [List.mem_cons, List.mem_append, List.mem_replicate, List.mem_filter,
          decide_eq_true_eq]
        constructor
        · rintro (rfl | ⟨hn, rfl⟩ | ⟨hy, heq⟩)
          · exact ⟨.inl rfl, hself⟩
          · exact ⟨.inl rfl, hself⟩
          · exact ⟨.inr (.inr hy), heq⟩
        · rintro ⟨rfl | ⟨hn, rfl⟩ | hy, heq⟩
          · exact .inl rfl
          · exact .inl rfl
          · exact .inr (.inr ⟨hy, heq⟩)

theorem leads_of_tied [DecidableEq α] [Std.OrientedCmp cmp] {among tied : List α}
    (hall : ∀ first rest, among.Perm (first :: rest) →
      (Choice.tied tied).Agrees (choose cmp name first rest))
    {x : α} (hx : x ∈ tied) (hmem : x ∈ among) : Leads cmp among x := by
  obtain ⟨hnone, hlevel⟩ := level_of_tied hall hx hmem
  refine ⟨hmem, fun y hy => ?_⟩
  cases hcmp : cmp x y with
  | gt => exact .inl rfl
  | lt => exact absurd (Std.OrientedCmp.gt_of_lt hcmp) (hnone y hy)
  | eq =>
      refine .inr ⟨rfl, fun z hz => ?_⟩
      -- The tie is the same seen from either member, so both beat the same candidates.
      have hy' : y ∈ tied := (hlevel y).mpr ⟨hy, Std.OrientedCmp.eq_symm hcmp⟩
      obtain ⟨hnone', hlevel'⟩ := level_of_tied hall hy' hy
      by_cases hz' : z ∈ tied
      · rw [Std.OrientedCmp.eq_symm ((hlevel z).mp hz').2,
          Std.OrientedCmp.eq_symm ((hlevel' z).mp hz').2]
      · have hbeats {w : α} (hnone : cmp z w ≠ .gt) (heq : cmp z w ≠ .eq) : cmp w z = .gt := by
          apply Std.OrientedCmp.gt_of_lt
          cases h : cmp z w <;> simp_all
        rw [hbeats (hnone z hz) fun h => hz' ((hlevel z).mpr ⟨hz, h⟩),
          hbeats (hnone' z hz) fun h => hz' ((hlevel' z).mpr ⟨hz, h⟩)]

-- A winner that is level with one other candidate, which has another name, leads if
-- every order has it as its winner: brought forward, the other one beats all that is left.
theorem leads_of_preferred [Std.OrientedCmp cmp] {among rest : List α} {winner other : α}
    (hall : ∀ first rest, among.Perm (first :: rest) → choose cmp name first rest = .winner winner)
    (hperm : among.Perm (winner :: other :: rest)) (hrest : winner ∉ rest)
    (hlevel : cmp other winner = .eq) (hbeaten : ∀ x ∈ rest, cmp x winner = .lt) :
    Leads cmp among winner := by
  have hswap : among.Perm (other :: winner :: rest) := hperm.trans (.swap _ _ _)
  have hchoice := hall other (winner :: rest) hswap
  rw [choose_eq_settle] at hchoice
  have hrun : Scan.run cmp other (winner :: rest) =
      rest.foldl (Scan.step cmp) ⟨other, [winner]⟩ := by
    rw [Scan.run, List.foldl_cons, Scan.step_eq (Std.OrientedCmp.eq_symm hlevel)]
    rfl
  have hmem := winner_mem_contenders hchoice
  rw [hrun] at hmem hchoice
  obtain ⟨hnone, hend⟩ := Scan.foldl_unmoved hrest hmem
  have hties : rest.filter (fun x => cmp x other = .eq) = [] := by
    rw [hend] at hchoice
    rcases settle_eq_winner hchoice with honly | ⟨_, hpair, -⟩
    · simp [Scan.contenders] at honly
    · simpa [Scan.contenders] using hpair.length_eq
  have hunder : ∀ x ∈ rest, cmp other x = .gt := by
    intro x hx
    have hneq : cmp x other ≠ .eq := by simpa using List.filter_eq_nil_iff.mp hties x hx
    apply Std.OrientedCmp.gt_of_lt
    cases h : cmp x other with
    | lt => rfl
    | eq => exact absurd h hneq
    | gt => exact absurd h (hnone x hx)
  have hself {x : α} : cmp x x = .eq := Std.ReflCmp.compare_self
  have hover : ∀ x ∈ rest, cmp winner x = .gt :=
    fun x hx => Std.OrientedCmp.gt_of_lt (hbeaten x hx)
  have hback : cmp winner other = .eq := Std.OrientedCmp.eq_symm hlevel
  refine ⟨hperm.mem_iff.mpr List.mem_cons_self, fun x hx => ?_⟩
  have hx := hperm.mem_iff.mp hx
  simp only [List.mem_cons] at hx
  rcases hx with rfl | rfl | hx
  · exact .inr ⟨hself, fun _ _ => rfl⟩
  · refine .inr ⟨hback, fun y hy => ?_⟩
    have hy := hperm.mem_iff.mp hy
    simp only [List.mem_cons] at hy
    rcases hy with rfl | rfl | hy
    · rw [hlevel, hself]
    · rw [hself, hback]
    · rw [hunder y hy, hover y hy]
  · exact .inl (hover x hx)

theorem leads_of_winner [DecidableEq α] [Std.OrientedCmp cmp] {among : List α} {winner : α}
    (hall : ∀ first rest, among.Perm (first :: rest) → choose cmp name first rest = .winner winner)
    (hmem : winner ∈ among) : Leads cmp among winner := by
  obtain ⟨n, rest, hperm, hrest⟩ := exists_perm_front hmem
  have hchoice := hall _ _ hperm
  rw [choose_eq_settle] at hchoice
  obtain ⟨hnone, hlist⟩ := Scan.contenders_front hrest (winner_mem_contenders hchoice)
  have hself : cmp winner winner = .eq := Std.ReflCmp.compare_self
  have hbeaten {x : α} (hx : x ∈ rest) (hne : cmp x winner ≠ .eq) : cmp x winner = .lt := by
    cases h : cmp x winner with
    | lt => rfl
    | eq => exact absurd h hne
    | gt => exact absurd h (hnone x hx)
  rw [hlist] at hchoice
  rcases settle_eq_winner hchoice with honly | ⟨other, hpair, hname⟩
  · -- Nothing ties with the winner.
    obtain ⟨hn, hties⟩ : n = 0 ∧ rest.filter (fun y => cmp y winner = .eq) = [] := by
      simpa using honly
    subst hn
    refine ⟨hmem, fun x hx => ?_⟩
    have hx := hperm.mem_iff.mp hx
    simp only [List.replicate_zero, List.nil_append, List.mem_cons] at hx
    rcases hx with rfl | hx
    · exact .inr ⟨hself, fun _ _ => rfl⟩
    · have hneq : cmp x winner ≠ .eq := by simpa using List.filter_eq_nil_iff.mp hties x hx
      exact .inl (Std.OrientedCmp.gt_of_lt (hbeaten hx hneq))
  · -- One other candidate ties with it, and has another name.
    have hne : winner ≠ other := fun h => hname (h ▸ rfl)
    have hties : List.replicate n winner ++ rest.filter (fun y => cmp y winner = .eq) = [other] :=
      List.perm_singleton.mp ((List.perm_cons winner).mp hpair)
    have hn : n = 0 := by
      by_contra hn
      have hcopy : winner ∈ List.replicate n winner ++
          rest.filter fun y => cmp y winner = .eq := by simp [hn]
      rw [hties] at hcopy
      exact hne (List.mem_singleton.mp hcopy)
    subst hn
    simp only [List.replicate_zero, List.nil_append] at hties hperm
    have hsplit := List.filter_append_perm (fun y => decide (cmp y winner = .eq)) rest
    rw [hties] at hsplit
    have hfront : among.Perm (winner :: other ::
        rest.filter fun y => !decide (cmp y winner = .eq)) := hperm.trans (hsplit.symm.cons winner)
    have hlevel : cmp other winner = .eq := by
      have hother : other ∈ rest.filter fun y => cmp y winner = .eq := by simp [hties]
      simpa using (List.mem_filter.mp hother).2
    apply leads_of_preferred hall hfront
    · exact fun h => hrest (List.mem_filter.mp h).1
    · exact hlevel
    · intro x hx
      obtain ⟨hx, hneq⟩ := List.mem_filter.mp hx
      exact hbeaten hx (by simpa using hneq)

-- The choice is free of the order of the candidates exactly where there is a leader.
theorem selectsAlike_iff_decisive [DecidableEq α] [Std.OrientedCmp cmp] (name : α → String)
    (among : List α) :
    (∀ others, among.Perm others → SelectsAlike cmp name among others) ↔ Decisive cmp among := by
  refine ⟨fun hall => ?_, fun h others hperm => h.selectsAlike hperm⟩
  cases among with
  | nil => exact .inl rfl
  | cons first rest =>
      right
      have hsame : ∀ next others, (first :: rest).Perm (next :: others) →
          (choose cmp name first rest).Agrees (choose cmp name next others) := by
        intro next others hperm
        cases hall (next :: others) hperm with
        | some hagrees => exact hagrees
      cases hchoice : choose cmp name first rest with
      | winner winner =>
          have hwinner : ∀ next others, (first :: rest).Perm (next :: others) →
              choose cmp name next others = .winner winner := by
            intro next others hperm
            have hagrees := hsame next others hperm
            rw [hchoice] at hagrees
            cases hnext : choose cmp name next others with
            | winner other =>
                rw [hnext] at hagrees
                rw [show other = winner from hagrees.symm]
            | tied others => simp [hnext, Choice.Agrees] at hagrees
          exact ⟨winner, leads_of_winner hwinner (choose_winner_mem hchoice)⟩
      | tied tied =>
          have htied : ∀ next others, (first :: rest).Perm (next :: others) →
              (Choice.tied tied).Agrees (choose cmp name next others) := by
            intro next others hperm
            rw [← hchoice]
            exact hsame next others hperm
          rw [choose_eq_settle] at hchoice
          have hbest : (Scan.run cmp first rest).best ∈ tied := by
            rw [← settle_eq_tied hchoice]
            exact List.mem_cons_self
          exact ⟨_, leads_of_tied htied hbest (Scan.Surveys.run first rest).best_mem⟩

end Necessity

-- A choice among candidates that are seen through a map is the choice among what they are mapped
-- to.

section SelectMap

variable {α β : Type}

def Choice.map (f : α → β) : Choice α → Choice β
  | .winner candidate => .winner (f candidate)
  | .tied candidates => .tied (candidates.map f)

variable (f : α → β) (cmp : β → β → Ordering) (name : β → String)

theorem Scan.contenders_run_map (first : α) (rest : List α) :
    (Scan.run cmp (f first) (rest.map f)).contenders =
      (Scan.run (fun a b => cmp (f a) (f b)) first rest).contenders.map f := by
  have hfoldl : ∀ (rest : List α) (scan : Scan α),
      (rest.map f).foldl (Scan.step cmp) ⟨f scan.best, scan.ties.map f⟩ =
        ⟨f (rest.foldl (Scan.step fun a b => cmp (f a) (f b)) scan).best,
          (rest.foldl (Scan.step fun a b => cmp (f a) (f b)) scan).ties.map f⟩ := by
    intro rest
    induction rest with
    | nil => exact fun scan => rfl
    | cons candidate rest ih =>
        intro scan
        rw [List.map_cons, List.foldl_cons, List.foldl_cons, ← ih]
        congr 1
        simp only [Scan.step]
        cases cmp (f candidate) (f scan.best) with
        | lt | gt => rfl
        | eq => cases cmp (f scan.best) (f candidate) <;> simp
  simp only [Scan.run, Scan.contenders, List.map_cons]
  rw [show (⟨f first, []⟩ : Scan β) = ⟨f (Scan.mk first []).best, (Scan.mk first []).ties.map f⟩ from
    rfl, hfoldl]

theorem preferred?_map (pair : String × String) (tied : List α) :
    preferred? name pair (tied.map f) = (preferred? (fun a => name (f a)) pair tied).map f := by
  simp only [preferred?, List.all_map, List.filter_map, Function.comp_def]
  split
  · rcases tied.filter fun a => name (f a) = pair.1 with _ | ⟨x, _ | ⟨y, ys⟩⟩ <;>
      rcases tied.filter fun a => name (f a) = pair.2 with _ | ⟨z, _ | ⟨w, ws⟩⟩ <;> rfl
  · rfl

theorem settle_map (contenders : List α) :
    settle name (contenders.map f) = (settle (fun a => name (f a)) contenders).map f := by
  have hpreferred : ∀ tied : List α,
      (priorityPairs.findSome? fun pair => preferred? name pair (tied.map f)) =
        (priorityPairs.findSome? fun pair => preferred? (fun a => name (f a)) pair tied).map f := by
    intro tied
    simp only [preferred?_map, List.map_findSome?, Function.comp_def]
  rcases contenders with _ | ⟨x, _ | ⟨y, ys⟩⟩
  · rfl
  · rfl
  · have htied := hpreferred (x :: y :: ys)
    simp only [List.map_cons] at htied
    simp only [settle, List.map_cons, htied]
    cases priorityPairs.findSome? fun pair => preferred? (fun a => name (f a)) pair (x :: y :: ys) <;>
      rfl

theorem select_map (among : List α) :
    select cmp name (among.map f) =
      (select (fun a b => cmp (f a) (f b)) (fun a => name (f a)) among).map (Choice.map f) := by
  cases among with
  | nil => rfl
  | cons first rest =>
      simp only [select, List.map_cons, Option.map_some]
      rw [choose_eq_settle, choose_eq_settle, Scan.contenders_run_map, settle_map]

end SelectMap

end Conformance
