import Conformance.Proofs.RegistryOrder

namespace Conformance

-- Two implementations that are written alike tie with each other. Whether both of them are
-- still there when a scan ends hangs on what the scan meets between them.

section Recurrence

variable {α : Type} {cmp : α → α → Ordering} {among : List α}

def Overtakes (cmp : α → α → Ordering) (among : List α) (a b : α) : Prop :=
  a ∈ among ∧ b ∈ among ∧ cmp a b = .gt

-- The comparison comes back to a candidate: from one that the candidate does not beat, each
-- time overtaken by a better one, it leads to one that the candidate ties with.
def Recurs (cmp : α → α → Ordering) (among : List α) (candidate : α) : Prop :=
  ∃ low ∈ among, ∃ high ∈ among, cmp candidate low ≠ .gt ∧
    Relation.TransGen (Overtakes cmp among) high low ∧ cmp candidate high = .eq

namespace Scan

variable {scan : Scan α}

variable (cmp) in
-- Going on, a scan keeps its best candidate, or it ends with one that stands above it.
theorem foldl_best [Std.OrientedCmp cmp] (rest : List α) (hbest : scan.best ∈ among)
    (hrest : rest ⊆ among) :
    (rest.foldl (step cmp) scan = ⟨scan.best, scan.ties ++ rest.filter fun x =>
        cmp x scan.best = .eq⟩) ∨
      Relation.TransGen (Overtakes cmp among) (rest.foldl (step cmp) scan).best scan.best := by
  induction rest generalizing scan with
  | nil => exact .inl (by simp)
  | cons candidate rest ih =>
      have hc : candidate ∈ among := hrest List.mem_cons_self
      have hsub : rest ⊆ among := fun x hx => hrest (List.mem_cons_of_mem _ hx)
      rw [List.foldl_cons]
      cases hcmp : cmp candidate scan.best with
      | gt =>
          have hlink : Relation.TransGen (Overtakes cmp among) candidate scan.best :=
            .single ⟨hc, hbest, hcmp⟩
          rw [step_gt hcmp]
          rcases @ih ⟨candidate, []⟩ hc hsub with hkept | habove
          · rw [hkept]
            exact .inr hlink
          · exact .inr (habove.trans hlink)
      | lt =>
          rw [step_lt hcmp]
          rcases ih hbest hsub with hkept | habove
          · exact .inl (by simpa [hcmp] using hkept)
          · exact .inr habove
      | eq =>
          rw [step_eq hcmp]
          rcases @ih ⟨scan.best, scan.ties ++ [candidate]⟩ hbest hsub with hkept | habove
          · exact .inl (by simpa [hcmp] using hkept)
          · exact .inr habove

variable (cmp) in
-- A candidate that has just been met does not beat the best one, and is a contender if it
-- ties with it.
theorem step_met [Std.OrientedCmp cmp] (scan : Scan α) (candidate : α) :
    cmp candidate (scan.step cmp candidate).best ≠ .gt ∧
      (cmp candidate (scan.step cmp candidate).best = .eq →
        candidate ∈ (scan.step cmp candidate).contenders) := by
  have hself : cmp candidate candidate = .eq := Std.ReflCmp.compare_self
  cases hcmp : cmp candidate scan.best with
  | gt => simp [step_gt hcmp, contenders, hself]
  | lt => simp [step_lt hcmp, hcmp]
  | eq => simp [step_eq hcmp, hcmp, contenders]

variable (cmp) in
-- The same for a candidate anywhere in a list, with what the scan goes on from.
theorem run_past [Std.OrientedCmp cmp] {first candidate : α} {tail before after : List α}
    (hsplit : first :: tail = before ++ candidate :: after) :
    ∃ scan, run cmp first tail = after.foldl (step cmp) scan ∧ scan.best ∈ first :: tail ∧
      cmp candidate scan.best ≠ .gt ∧
      (cmp candidate scan.best = .eq → candidate ∈ scan.contenders) := by
  cases before with
  | nil =>
      obtain ⟨rfl, rfl⟩ : first = candidate ∧ tail = after := by simpa using hsplit
      have hself : cmp first first = .eq := Std.ReflCmp.compare_self
      exact ⟨⟨first, []⟩, rfl, List.mem_cons_self, by simp [hself], by simp [contenders]⟩
  | cons start before =>
      obtain ⟨rfl, rfl⟩ : first = start ∧ tail = before ++ candidate :: after := by
        simpa using hsplit
      have hsurvey : Surveys cmp (first :: (before ++ candidate :: after)) [first] ⟨first, []⟩ :=
        ⟨List.mem_cons_self, by simp [Above, Relation.ReflTransGen.refl], by simp⟩
      have hbefore := hsurvey.foldl before (by
        intro x hx
        exact List.mem_cons_of_mem _ (List.mem_append_left _ hx))
      have hmet := hbefore.step (show candidate ∈ first :: (before ++ candidate :: after) by simp)
      obtain ⟨hle, hin⟩ := step_met cmp (before.foldl (step cmp) ⟨first, []⟩) candidate
      refine ⟨_, ?_, hmet.best_mem, hle, hin⟩
      rw [run, List.foldl_append, List.foldl_cons]

-- Unless the comparison comes back to a contender, all that compare like it are contenders.
theorem twins_kept [Std.OrientedCmp cmp] {first a b twin : α} {tail : List α}
    (htwins : [a, b].Sublist (first :: tail))
    (ha : ∀ x, cmp a x = cmp twin x) (hb : ∀ x, cmp b x = cmp twin x)
    (htwin : twin ∈ (run cmp first tail).contenders)
    (hstraight : ¬ Recurs cmp (first :: tail) twin) :
    [a, b].Sublist (run cmp first tail).contenders := by
  obtain ⟨before, after, hsplit, hafter⟩ : ∃ before after,
      first :: tail = before ++ a :: after ∧ b ∈ after := by
    obtain ⟨left, right, hsplit, ha, hb⟩ := List.cons_sublist_iff.mp htwins
    obtain ⟨before, rest, rfl⟩ := List.append_of_mem ha
    exact ⟨before, rest ++ right, by simp [hsplit],
      List.mem_append_right _ (List.singleton_sublist.mp hb)⟩
  obtain ⟨scan, hrun, hbest, hle, hin⟩ := run_past cmp hsplit
  have hsurvey : Surveys cmp (first :: tail) (first :: tail) (run cmp first tail) := .run first tail
  have hlevel : cmp twin (run cmp first tail).best = .eq := by
    rcases List.mem_cons.mp htwin with rfl | htie
    · exact Std.ReflCmp.compare_self
    · exact hsurvey.level twin htie
  have hsub : after ⊆ first :: tail := by
    intro x hx
    rw [hsplit]
    exact List.mem_append_right _ (List.mem_cons_of_mem _ hx)
  rcases foldl_best cmp after hbest hsub with hkept | habove
  · -- The best one has stayed, so both of them tied with it when they were met.
    rw [hkept] at hrun
    rw [hrun] at hlevel ⊢
    have hfirst : a ∈ scan.contenders := hin ((ha _).trans hlevel)
    have hsecond : b ∈ after.filter fun x => cmp x scan.best = .eq := by
      simp [hafter, (hb _).trans hlevel]
    exact (List.singleton_sublist.mpr hfirst).append (List.singleton_sublist.mpr hsecond)
  · rw [← hrun] at habove
    exact absurd ⟨scan.best, hbest, _, hsurvey.best_mem, by rwa [← ha], habove, hlevel⟩ hstraight

-- Candidates that overtake one another bring the last of them to the top.
theorem exists_climb {low high : α}
    (h : Relation.TransGen (Overtakes cmp among) high low) :
    ∃ climb ⊆ among, high ∈ climb ∧
      ∀ ties, climb.foldl (step cmp) ⟨low, ties⟩ = ⟨high, []⟩ := by
  induction h with
  | single hover =>
      obtain ⟨hhigh, -, hgt⟩ := hover
      refine ⟨[high], by simpa using hhigh, by simp, fun ties => ?_⟩
      simp [step, hgt]
  | tail _ hover ih =>
      obtain ⟨climb, hsub, hmem, hclimb⟩ := ih
      obtain ⟨hmiddle, -, hgt⟩ := hover
      refine ⟨_ :: climb, List.cons_subset.mpr ⟨hmiddle, hsub⟩, List.mem_cons_of_mem _ hmem,
        fun ties => ?_⟩
      rw [List.foldl_cons, step_gt hgt]
      exact hclimb []

-- Where the comparison comes back to a candidate, a scan that meets it twice can lose it
-- between the two times.
theorem exists_parted [DecidableEq α] [Std.OrientedCmp cmp] {candidate : α}
    (hmem : candidate ∈ among) (h : Recurs cmp among candidate) :
    ∃ first tail, first :: tail ⊆ among ∧ 2 ≤ (first :: tail).count candidate ∧
      (run cmp first tail).contenders.count candidate = 1 := by
  obtain ⟨low, hlow, high, hhigh, hle, habove, hlevel⟩ := h
  obtain ⟨climb, hsub, htop, hclimb⟩ := exists_climb habove
  have hmet : ∃ ties, step cmp ⟨low, []⟩ candidate = ⟨low, ties⟩ := by
    cases hcmp : cmp candidate low with
    | gt => exact absurd hcmp hle
    | lt => exact ⟨[], by rw [step_lt hcmp]⟩
    | eq => exact ⟨[candidate], by rw [step_eq hcmp]; rfl⟩
  obtain ⟨ties, hmet⟩ := hmet
  have hrun : run cmp low (candidate :: climb) = ⟨high, []⟩ := by
    rw [run, List.foldl_cons, hmet, hclimb]
  by_cases hsame : high = candidate
  · subst hsame
    refine ⟨low, high :: climb, by simp [hlow, hhigh, hsub], ?_, by simp [hrun, contenders]⟩
    have hpos := List.count_pos_iff.mpr htop
    simp only [List.count_cons, beq_self_eq_true, if_true]
    omega
  · refine ⟨low, candidate :: (climb ++ [candidate]), ?_, ?_, ?_⟩
    · simp [hlow, hmem, hsub]
    · simp only [List.count_cons, List.count_append, List.count_nil, beq_self_eq_true, if_true]
      omega
    · have hend : run cmp low (candidate :: (climb ++ [candidate])) = ⟨high, [candidate]⟩ := by
        rw [run, ← List.cons_append, List.foldl_append]
        rw [run] at hrun
        rw [hrun, List.foldl_cons, List.foldl_nil, step_eq hlevel]
        rfl
      simp [hend, contenders, hsame]

end Scan

theorem Recurs.mono {part : List α} {candidate : α} (h : Recurs cmp part candidate)
    (hsub : part ⊆ among) : Recurs cmp among candidate := by
  obtain ⟨low, hlow, high, hhigh, hle, habove, hlevel⟩ := h
  have hstep : ∀ a b, Overtakes cmp part a b → Overtakes cmp among a b :=
    fun a b hover => ⟨hsub hover.1, hsub hover.2.1, hover.2.2⟩
  exact ⟨low, hsub hlow, high, hsub hhigh, hle, Relation.TransGen.mono hstep _ _ habove, hlevel⟩

-- Some scan over the candidates meets one of them twice and keeps it once.
def Parted [DecidableEq α] (cmp : α → α → Ordering) (among : List α) (candidate : α) : Prop :=
  ∃ first tail, first :: tail ⊆ among ∧ 2 ≤ (first :: tail).count candidate ∧
    (Scan.run cmp first tail).contenders.count candidate = 1

theorem recurs_iff_parted [DecidableEq α] [Std.OrientedCmp cmp] {candidate : α}
    (hmem : candidate ∈ among) : Recurs cmp among candidate ↔ Parted cmp among candidate := by
  refine ⟨Scan.exists_parted hmem, ?_⟩
  rintro ⟨first, tail, hsub, htwice, honce⟩
  by_contra hstraight
  have hinner : ¬ Recurs cmp (first :: tail) candidate := fun h => hstraight (h.mono hsub)
  have htwins : [candidate, candidate].Sublist (first :: tail) :=
    List.replicate_sublist_iff.mpr htwice
  have hin : candidate ∈ (Scan.run cmp first tail).contenders :=
    List.count_pos_iff.mp (by omega)
  have hboth := Scan.twins_kept htwins (fun _ => rfl) (fun _ => rfl) hin hinner
  have hcount := hboth.count_le candidate
  simp at hcount
  omega

end Recurrence

-- Two candidates of one name never make a winner of that name.
theorem settle_twins {α : Type} {name : α → String} {contenders : List α} {a b winner : α}
    (htwins : [a, b].Sublist contenders) (ha : name a = name winner) (hb : name b = name winner) :
    settle name contenders ≠ .winner winner := by
  intro hsettle
  have hcount := (htwins.filter fun x => decide (name x = name winner)).length_le
  have htwo : ([a, b].filter fun x => decide (name x = name winner)).length = 2 := by
    simp [ha, hb]
  rcases settle_eq_winner hsettle with rfl | ⟨other, hperm, hname⟩
  · simp [htwo] at hcount
  · have hone := (hperm.filter fun x => decide (name x = name winner)).length_eq
    simp [Ne.symm hname] at hone
    omega


namespace Implementation

-- Two implementations that say the same to a lookup.
structure Twin (a b : Implementation) : Prop where
  interface : a.interface = b.interface
  generics : a.generics = b.generics
  target : a.target = b.target
  args : a.args = b.args
  obligations : a.obligations = b.obligations
  isBuiltin : a.isBuiltin = b.isBuiltin

theorem Twin.symm {a b : Implementation} (h : a.Twin b) : b.Twin a :=
  ⟨h.interface.symm, h.generics.symm, h.target.symm, h.args.symm, h.obligations.symm,
    h.isBuiltin.symm⟩

end Implementation

namespace Resolver

variable {r : Resolver}

theorem compare_twin (a : Survivor) {impl : Implementation} (h : a.impl.Twin impl)
    (x : Survivor) : r.compare { a with impl := impl } x = r.compare a x := by
  have hconcrete : impl.isConcrete = a.impl.isConcrete := by
    simp only [Implementation.isConcrete, h.target]
  have hkeys : impl.constraintKeys = a.impl.constraintKeys := by
    simp only [Implementation.constraintKeys, h.obligations]
  have hvariants : impl.variants = a.impl.variants := by
    simp only [Implementation.variants, h.target]
  simp only [compare, Survivor.compare, hconcrete, hkeys, hvariants, h.isBuiltin]

theorem complete_twin {a b : Implementation} (h : a.Twin b) (s : Substitution) (env : Environment)
    (subject : Ty) : Substitution.complete s env a subject = Substitution.complete s env b subject := by
  simp only [Substitution.complete, h.interface, h.args, h.generics]

-- Where one of two twins survives, so does the other, with the same found out about it.
theorem assess_twin {below : Option Explorer} {goals : List Goal} {goal : Goal}
    {a b : Implementation} (h : a.Twin b) {survivor : Survivor}
    (ha : (r.assess below goals goal a).survivor? = some survivor) :
    (r.assess below goals goal b).survivor? = some { survivor with impl := b } := by
  obtain ⟨found, hfound, himpl, hs, hargs, hscore, hcompatible, hholds⟩ :=
    (r.assess_survivor?_eq_some_iff below goals goal a survivor).mp ha
  apply (r.assess_survivor?_eq_some_iff below goals goal b _).mpr
  refine ⟨found, ?_, rfl, ?_, ?_, hscore, hcompatible, ?_⟩
  · rw [← h.target, ← h.generics]
    exact hfound
  · rw [← complete_twin h]
    exact hs
  · rw [← h.args]
    exact hargs
  · rw [← h.obligations]
    exact hholds

-- The survivors among which a lookup decides.
def finalists (r : Resolver) (goal : Goal) : List Survivor :=
  r.survivors r.options.maxDepth [] goal

def chosen? (r : Resolver) (goal : Goal) : Option Survivor :=
  match r.select (r.finalists goal) with
  | some (.winner survivor) => some survivor
  | _ => none

theorem resolve_eq_resolved_iff (r : Resolver) (subject : Ty) (interface : String) (args : List Ty)
    (resolution : Resolution) :
    r.resolve subject interface args = .resolved resolution ↔
      ∃ survivor, r.chosen? (Goal.lookup subject interface args) = some survivor ∧
        resolution = survivor.resolution (Goal.lookup subject interface args) := by
  unfold resolve start chosen? finalists
  cases hrefuses : refuses r.options.maxDepth [] (Goal.lookup subject interface args) with
  | true =>
      have hnone : r.options.maxDepth = 0 := by simpa [refuses] using hrefuses
      obtain ⟨detail, hrefused⟩ := r.resolveIn_refused hrefuses
      rw [hrefused, hnone]
      simp [select, Conformance.select]
  | false =>
      obtain ⟨detail, hopened⟩ := r.resolveIn_opened hrefuses
      rw [hopened]
      cases r.select (r.survivors r.options.maxDepth [] (Goal.lookup subject interface args)) with
      | none => simp [outcome]
      | some choice => cases choice <;> simp [outcome, eq_comm]

-- What an entry of the registry contributes to the survivors of a goal.
def contribution? (r : Resolver) (room : Nat) (goals : List Goal) (goal : Goal)
    (impl : Implementation) : Option Survivor :=
  if impl.name.isNone && (servingInterfaces goal.interface).contains impl.interfaceName then
    (r.assess (r.explorer room) (goal :: goals) goal impl).survivor?
  else none

theorem survivors_eq_filterMap (r : Resolver) (room : Nat) (goals : List Goal) (goal : Goal) :
    r.survivors (room + 1) goals goal =
      r.registry.entries.filterMap (r.contribution? room goals goal) := by
  rw [survivors_succ, Registry.candidates, List.filterMap_filter]
  rfl

-- Two twins in the registry make two survivors, if they make any.
theorem survivors_twins {a b : Implementation} (hentries : [a, b].Sublist r.registry.entries)
    (htwin : a.Twin b) (hname : a.name = b.name) {room : Nat} {goals : List Goal} {goal : Goal}
    {survivor : Survivor} (hmem : survivor ∈ r.survivors room goals goal)
    (himpl : survivor.impl = a ∨ survivor.impl = b) :
    [{ survivor with impl := a }, { survivor with impl := b }].Sublist
      (r.survivors room goals goal) := by
  cases room with
  | zero => simp at hmem
  | succ room =>
      obtain ⟨hcandidate, hassess⟩ := mem_survivors hmem
      have hserves := (List.mem_filter.mp hcandidate).2
      have hcontributes : ∀ impl, survivor.impl.Twin impl → survivor.impl.name = impl.name →
          r.contribution? room goals goal impl = some { survivor with impl := impl } := by
        intro impl htwin hname
        have hother := assess_twin htwin hassess
        rw [hname, Implementation.interfaceName, htwin.interface] at hserves
        rw [contribution?, Implementation.interfaceName, hserves, if_pos rfl]
        exact hother
      have hself : ∀ impl : Implementation, impl.Twin impl :=
        fun impl => ⟨rfl, rfl, rfl, rfl, rfl, rfl⟩
      have hboth : r.contribution? room goals goal a = some { survivor with impl := a } ∧
          r.contribution? room goals goal b = some { survivor with impl := b } := by
        rcases himpl with himpl | himpl
        · exact ⟨hcontributes a (himpl ▸ hself a) (by rw [himpl]),
            hcontributes b (himpl ▸ htwin) (by rw [himpl, hname])⟩
        · exact ⟨hcontributes a (himpl ▸ htwin.symm) (by rw [himpl, hname]),
            hcontributes b (himpl ▸ hself b) (by rw [himpl])⟩
      have hsub := hentries.filterMap (r.contribution? room goals goal)
      rw [List.filterMap_cons_some hboth.1, List.filterMap_cons_some hboth.2,
        List.filterMap_nil] at hsub
      rw [survivors_eq_filterMap]
      exact hsub

theorem chosen?_eq_some_iff {goal : Goal} {survivor : Survivor} :
    r.chosen? goal = some survivor ↔
      r.select (r.finalists goal) = some (.winner survivor) := by
  unfold chosen?
  split
  · rename_i winner hselect
    simp [hselect]
  · rename_i hnone
    simp only [reduceCtorEq, false_iff]
    exact hnone survivor

theorem chosen?_mem {goal : Goal} {survivor : Survivor} (h : r.chosen? goal = some survivor) :
    survivor ∈ r.finalists goal :=
  select_winner_mem (chosen?_eq_some_iff.mp h)

-- Unless the comparison comes back to a survivor, it is not chosen if it has a twin.
theorem chosen?_ne_twin {a b : Implementation} (hentries : [a, b].Sublist r.registry.entries)
    (htwin : a.Twin b) (hname : a.name = b.name) {goal : Goal} {survivor : Survivor}
    (hchosen : r.chosen? goal = some survivor)
    (hstraight : ¬ Recurs r.compare (r.finalists goal) survivor) :
    survivor.impl ≠ a ∧ survivor.impl ≠ b := by
  have hselect := chosen?_eq_some_iff.mp hchosen
  by_contra hnot
  have himpl : survivor.impl = a ∨ survivor.impl = b := by tauto
  have hpair : [{ survivor with impl := a }, { survivor with impl := b }].Sublist
      (r.finalists goal) := survivors_twins hentries htwin hname (select_winner_mem hselect) himpl
  have hlike : survivor.impl.Twin a ∧ survivor.impl.Twin b := by
    rcases himpl with rfl | rfl
    · exact ⟨⟨rfl, rfl, rfl, rfl, rfl, rfl⟩, htwin⟩
    · exact ⟨htwin.symm, ⟨rfl, rfl, rfl, rfl, rfl, rfl⟩⟩
  cases hlist : r.finalists goal with
  | nil => simp [hlist, select, Conformance.select] at hselect
  | cons first rest =>
      rw [hlist] at hselect hpair hstraight
      have hchoice : choose r.compare (fun survivor => survivor.impl.interfaceName) first rest =
          .winner survivor := by
        simpa [select, Conformance.select] using hselect
      rw [choose_eq_settle] at hchoice
      have ha : ∀ x, r.compare { survivor with impl := a } x = r.compare survivor x :=
        compare_twin survivor hlike.1
      have hb : ∀ x, r.compare { survivor with impl := b } x = r.compare survivor x :=
        compare_twin survivor hlike.2
      have hkept := Scan.twins_kept hpair ha hb (winner_mem_contenders hchoice) hstraight
      refine settle_twins hkept ?_ ?_ hchoice
      · simp only [Implementation.interfaceName, hlike.1.interface]
      · simp only [Implementation.interfaceName, hlike.2.interface]

end Resolver

theorem pair_sublist_of_getElem? {α : Type} {entries : List α} {i j : Nat} {a b : α} (hij : i < j)
    (ha : entries[i]? = some a) (hb : entries[j]? = some b) : [a, b].Sublist entries := by
  obtain ⟨hi, rfl⟩ := List.getElem?_eq_some_iff.mp ha
  have hafter : b ∈ entries.drop (i + 1) := by
    apply List.mem_of_getElem? (i := j - (i + 1))
    rw [List.getElem?_drop, show i + 1 + (j - (i + 1)) = j by omega]
    exact hb
  have hsplit : entries = entries.take (i + 1) ++ entries.drop (i + 1) :=
    (List.take_append_drop _ _).symm
  refine List.cons_sublist_iff.mpr ⟨_, _, hsplit, ?_, List.singleton_sublist.mpr hafter⟩
  exact List.mem_take_iff_getElem.mpr ⟨i, by omega, rfl⟩

-- Of two equal entries of the registry none is chosen, as long as the comparison does not
-- come back to their survivors. It comes back to a survivor exactly where a scan over the
-- survivors can meet it twice and keep it once.
theorem duplicate_never_chosen (r : Resolver) (subject : Ty) (interface : String) (args : List Ty)
    {i j : Nat} {a b : Implementation} (hij : i ≠ j) (ha : r.registry.entries[i]? = some a)
    (hb : r.registry.entries[j]? = some b) (hunnamed : a.name = none ∧ b.name = none)
    (htwin : a.Twin b) :
    (∀ survivor ∈ r.finalists (Goal.lookup subject interface args),
      (Recurs r.compare (r.finalists (Goal.lookup subject interface args)) survivor ↔
        Parted r.compare (r.finalists (Goal.lookup subject interface args)) survivor)) ∧
    ((∀ survivor ∈ r.finalists (Goal.lookup subject interface args), a.Twin survivor.impl →
        ¬ Recurs r.compare (r.finalists (Goal.lookup subject interface args)) survivor) →
      ∀ resolution, r.resolve subject interface args = .resolved resolution →
        ∃ survivor, r.chosen? (Goal.lookup subject interface args) = some survivor ∧
          resolution = survivor.resolution (Goal.lookup subject interface args) ∧
          survivor.impl ≠ a ∧ survivor.impl ≠ b) := by
  refine ⟨fun survivor hmem => recurs_iff_parted hmem, ?_⟩
  intro hstraight resolution hresolved
  obtain ⟨survivor, hchosen, heq⟩ := (r.resolve_eq_resolved_iff _ _ _ _).mp hresolved
  refine ⟨survivor, hchosen, heq, ?_⟩
  have hname : a.name = b.name := hunnamed.1.trans hunnamed.2.symm
  by_contra hnot
  have hlike : a.Twin survivor.impl := by
    have himpl : survivor.impl = a ∨ survivor.impl = b := by tauto
    rcases himpl with himpl | himpl
    · rw [himpl]
      exact ⟨rfl, rfl, rfl, rfl, rfl, rfl⟩
    · exact himpl ▸ htwin
  have hnone := hstraight survivor (Resolver.chosen?_mem hchosen) hlike
  rcases Nat.lt_or_gt_of_ne hij with hlt | hgt
  · exact hnot (Resolver.chosen?_ne_twin (pair_sublist_of_getElem? hlt ha hb) htwin hname hchosen
      hnone)
  · have hother := Resolver.chosen?_ne_twin (pair_sublist_of_getElem? hgt hb ha) htwin.symm
      hname.symm hchosen hnone
    exact hnot hother.symm

-- The scan goes from the first of two equal implementations over the flat and the nested one
-- to the second of them, and has forgotten the first.
theorem circle_duplicate_chosen :
    (Circle.resolver [Circle.generalImpl, Circle.flatImpl, Circle.nestedImpl,
        Circle.generalImpl]).registry.entries[3]? = some Circle.generalImpl ∧
      (Circle.resolver [Circle.generalImpl, Circle.flatImpl, Circle.nestedImpl,
        Circle.generalImpl]).registry.entries[6]? = some Circle.generalImpl ∧
      Circle.generalImpl.name = none ∧
      (Circle.resolver [Circle.generalImpl, Circle.flatImpl, Circle.nestedImpl,
        Circle.generalImpl]).resolve Circle.subject "Show" [] =
          .resolved (Circle.general.resolution Circle.goal) ∧
      (Circle.resolver [Circle.generalImpl, Circle.flatImpl, Circle.nestedImpl,
        Circle.generalImpl]).chosen? Circle.goal = some Circle.general ∧
      Circle.general.impl = Circle.generalImpl := by
  refine ⟨by decide +kernel, by decide +kernel, rfl, by decide +kernel, by decide +kernel, rfl⟩

-- The nested implementation twice: the general one wins over both.
theorem nested_duplicate_not_chosen :
    (Circle.resolver [Circle.nestedImpl, Circle.nestedImpl, Circle.generalImpl]).resolve
        Circle.subject "Show" [] = .resolved (Circle.general.resolution Circle.goal) ∧
      ∃ survivor, (Circle.resolver [Circle.nestedImpl, Circle.nestedImpl,
          Circle.generalImpl]).chosen? Circle.goal = some survivor ∧
        Circle.general.resolution Circle.goal = survivor.resolution Circle.goal ∧
        survivor.impl ≠ Circle.nestedImpl ∧ survivor.impl ≠ Circle.nestedImpl := by
  have hresolved : (Circle.resolver [Circle.nestedImpl, Circle.nestedImpl,
      Circle.generalImpl]).resolve Circle.subject "Show" [] =
        .resolved (Circle.general.resolution Circle.goal) := by
    decide +kernel
  have hsurvivors : (Circle.resolver [Circle.nestedImpl, Circle.nestedImpl,
      Circle.generalImpl]).finalists Circle.goal =
        [Circle.nested, Circle.nested, Circle.general] := by
    decide +kernel
  have hstraight : ∀ survivor ∈ [Circle.nested, Circle.nested, Circle.general],
      Circle.nestedImpl.Twin survivor.impl →
      ∀ high ∈ [Circle.nested, Circle.nested, Circle.general],
        survivor.compare true high = .eq →
          ∀ low ∈ [Circle.nested, Circle.nested, Circle.general],
            high.compare true low ≠ .gt := by
    intro survivor hmem htwin
    have htarget : survivor.impl.target = Circle.nestedImpl.target := htwin.target.symm
    clear htwin
    revert survivor
    decide +kernel
  refine ⟨hresolved, (duplicate_never_chosen _ Circle.subject "Show" [] (i := 3) (j := 4)
    (by decide) (by decide +kernel) (by decide +kernel) ⟨rfl, rfl⟩
    ⟨rfl, rfl, rfl, rfl, rfl, rfl⟩).2 ?_ _ hresolved⟩
  intro survivor hmem htwin hrecurs
  obtain ⟨_, _, high, hhigh, _, habove, hlevel⟩ := hrecurs
  obtain ⟨low, ⟨_, hlow, hgt⟩, _⟩ := Relation.TransGen.head'_iff.mp habove
  have hlist : ∀ x, x ∈ (Circle.resolver [Circle.nestedImpl, Circle.nestedImpl,
      Circle.generalImpl]).finalists Circle.goal →
        x ∈ [Circle.nested, Circle.nested, Circle.general] := fun x hx => hsurvivors ▸ hx
  exact hstraight survivor (hlist _ hmem) htwin high (hlist _ hhigh) hlevel low (hlist _ hlow) hgt

end Conformance
