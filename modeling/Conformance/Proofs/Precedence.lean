import Conformance.Proofs.SelectionOrder

namespace Conformance

-- The comparison is not transitive, so a candidate may give way to one that it beats, through
-- others in between. A layer of candidates may not, if each of them beats everything below it.

section Layers

variable {α : Type} {cmp : α → α → Ordering} {name : α → String} {upper : α → Bool}
  {among : List α}

def Overtops (cmp : α → α → Ordering) (upper : α → Bool) (among : List α) : Prop :=
  ∀ a ∈ among, ∀ b ∈ among, upper a = true → upper b = false → cmp a b = .gt

namespace Scan

variable {scan : Scan α} {rest : List α}

-- With one of the upper layer at the top, a scan takes no notice of the others.
theorem foldl_upper [Std.OrientedCmp cmp] (hover : Overtops cmp upper among)
    (hbest : scan.best ∈ among.filter upper) (hrest : rest ⊆ among) :
    rest.foldl (step cmp) scan = (rest.filter upper).foldl (step cmp) scan := by
  induction rest generalizing scan with
  | nil => rfl
  | cons candidate rest ih =>
      have hc : candidate ∈ among := hrest List.mem_cons_self
      have hsub : rest ⊆ among := fun x hx => hrest (List.mem_cons_of_mem _ hx)
      obtain ⟨hmem, hupper⟩ := List.mem_filter.mp hbest
      cases hlayer : upper candidate with
      | true =>
          have hnext : (scan.step cmp candidate).best ∈ among.filter upper :=
            best_step_mem hbest (List.mem_filter.mpr ⟨hc, hlayer⟩)
          rw [List.filter_cons_of_pos hlayer, List.foldl_cons, List.foldl_cons, ih hnext hsub]
      | false =>
          have hbeats := hover scan.best hmem candidate hc hupper hlayer
          rw [List.filter_cons_of_neg (by simp [hlayer]), List.foldl_cons,
            step_lt (Std.OrientedCmp.lt_of_gt hbeats), ih hbest hsub]

-- The first one of the upper layer starts the scan anew.
theorem foldl_lower [Std.OrientedCmp cmp] (hover : Overtops cmp upper among)
    (hbest : scan.best ∈ among.filter fun x => !upper x) (hrest : rest ⊆ among)
    {first : α} {others : List α} (hfilter : rest.filter upper = first :: others) :
    rest.foldl (step cmp) scan = run cmp first others := by
  induction rest generalizing scan with
  | nil => cases hfilter
  | cons candidate rest ih =>
      have hc : candidate ∈ among := hrest List.mem_cons_self
      have hsub : rest ⊆ among := fun x hx => hrest (List.mem_cons_of_mem _ hx)
      rw [List.foldl_cons]
      cases hlayer : upper candidate with
      | true =>
          rw [List.filter_cons_of_pos hlayer] at hfilter
          obtain ⟨rfl, rfl⟩ := List.cons.inj hfilter
          obtain ⟨hmem, hlower⟩ := List.mem_filter.mp hbest
          have hbeats := hover candidate hc scan.best hmem hlayer (by simpa using hlower)
          rw [step_gt hbeats]
          exact foldl_upper hover (List.mem_filter.mpr ⟨hc, hlayer⟩) hsub
      | false =>
          rw [List.filter_cons_of_neg (by simp [hlayer])] at hfilter
          exact ih (best_step_mem hbest (List.mem_filter.mpr ⟨hc, by simp [hlayer]⟩)) hsub hfilter

theorem run_filter [Std.OrientedCmp cmp] {start : α}
    (hover : Overtops cmp upper (start :: rest)) {first : α} {others : List α}
    (hfilter : (start :: rest).filter upper = first :: others) :
    run cmp start rest = run cmp first others := by
  have hstart : start ∈ start :: rest := List.mem_cons_self
  have hrest : rest ⊆ start :: rest := fun x hx => List.mem_cons_of_mem _ hx
  cases hlayer : upper start with
  | true =>
      rw [List.filter_cons_of_pos hlayer] at hfilter
      obtain ⟨rfl, rfl⟩ := List.cons.inj hfilter
      exact foldl_upper hover (List.mem_filter.mpr ⟨hstart, hlayer⟩) hrest
  | false =>
      rw [List.filter_cons_of_neg (by simp [hlayer])] at hfilter
      exact foldl_lower hover (List.mem_filter.mpr ⟨hstart, by simp [hlayer]⟩) hrest hfilter

end Scan

-- An upper layer decides alone.
theorem select_filter [Std.OrientedCmp cmp] (name : α → String)
    (hover : Overtops cmp upper among) (hsome : ∃ a ∈ among, upper a = true) :
    select cmp name among = select cmp name (among.filter upper) := by
  obtain ⟨a, hmem, hupper⟩ := hsome
  have hmem' : a ∈ among.filter upper := List.mem_filter.mpr ⟨hmem, hupper⟩
  cases hfilter : among.filter upper with
  | nil => simp [hfilter] at hmem'
  | cons first others =>
      cases among with
      | nil => cases hmem
      | cons start rest =>
          simp only [select]
          rw [choose_eq_settle, choose_eq_settle, Scan.run_filter hover hfilter]

-- The candidates that a choice leaves: its winner, or all that are tied.
def Choice.candidates : Choice α → List α
  | .winner candidate => [candidate]
  | .tied candidates => candidates

theorem select_candidates_subset [Std.OrientedCmp cmp] {choice : Choice α}
    (h : select cmp name among = some choice) : choice.candidates ⊆ among := by
  cases among with
  | nil => cases h
  | cons first rest =>
      obtain rfl : choose cmp name first rest = choice := by simpa [select] using h
      cases hchoice : choose cmp name first rest with
      | winner winner => simpa [Choice.candidates] using choose_winner_mem hchoice
      | tied tied =>
          rw [choose_eq_settle] at hchoice
          rw [Choice.candidates, ← settle_eq_tied hchoice]
          exact Scan.contenders_foldl_subset rest ⟨first, []⟩

end Layers

-- All that stands at the other places of a list, if one place is known.
theorem forall_split_of_getElem? {α : Type} {entries : List α} {i : Nat} {x : α}
    (hx : entries[i]? = some x) {P : α → Prop} (h : ∀ j y, j ≠ i → entries[j]? = some y → P y) :
    ∃ before after, entries = before ++ x :: after ∧ (∀ y ∈ before, P y) ∧ ∀ y ∈ after, P y := by
  obtain ⟨hi, rfl⟩ := List.getElem?_eq_some_iff.mp hx
  refine ⟨entries.take i, entries.drop (i + 1), ?_, fun y hy => ?_, fun y hy => ?_⟩
  · rw [← List.drop_eq_getElem_cons hi, List.take_append_drop]
  · obtain ⟨j, hj, rfl⟩ := List.mem_take_iff_getElem.mp hy
    exact h j _ (by omega) (List.getElem?_eq_getElem _)
  · obtain ⟨j, hj, rfl⟩ := List.mem_drop_iff_getElem.mp hy
    exact h (i + 1 + j) _ (by omega) (List.getElem?_eq_getElem _)

-- A survivor that beats all the others wins, wherever it stands among them, and it stands at one
-- place only. Asked the other way round, the comparison gives the reverse answer.
theorem dominant_survivor_wins (preferUser : Bool) :
    (∀ a b : Survivor, a.compare preferUser b = (b.compare preferUser a).swap) ∧
      ∀ (first : Survivor) (rest : List Survivor) (i : Nat) (dominant : Survivor),
        (first :: rest)[i]? = some dominant →
        (∀ j other, j ≠ i → (first :: rest)[j]? = some other →
          dominant.compare preferUser other = .gt) →
        choose (Survivor.compare preferUser) (fun survivor => survivor.impl.interfaceName)
            first rest = .winner dominant ∧
          ∀ j, (first :: rest)[j]? = some dominant → j = i := by
  refine ⟨Survivor.compare_swap preferUser, ?_⟩
  intro first rest i dominant hi hbeats
  have hself : dominant.compare preferUser dominant = .eq := Std.ReflCmp.compare_self
  have hother : ∀ other, dominant.compare preferUser other = .gt → other ≠ dominant := by
    rintro other hgt rfl
    simp [hself] at hgt
  obtain ⟨before, after, hsplit, hbefore, hafter⟩ := forall_split_of_getElem? hi hbeats
  -- The survivor is a layer of its own.
  have hfilter : (first :: rest).filter (fun x => decide (x = dominant)) = [dominant] := by
    have hnone : ∀ others : List Survivor,
        (∀ y ∈ others, dominant.compare preferUser y = .gt) →
          others.filter (fun x => decide (x = dominant)) = [] := by
      intro others hgt
      exact List.filter_eq_nil_iff.mpr fun y hy => by simpa using hother y (hgt y hy)
    rw [hsplit, List.filter_append, List.filter_cons_of_pos (by simp), hnone before hbefore,
      hnone after hafter, List.nil_append]
  have hover : Overtops (Survivor.compare preferUser) (fun x => decide (x = dominant))
      (first :: rest) := by
    intro a _ b hb ha hne
    obtain rfl : a = dominant := by simpa using ha
    obtain ⟨j, hj⟩ := List.mem_iff_getElem?.mp hb
    refine hbeats j b ?_ hj
    rintro rfl
    simp [Option.some.inj (hj.symm.trans hi)] at hne
  refine ⟨?_, fun j hj => ?_⟩
  · have hselect := select_filter (fun survivor => survivor.impl.interfaceName) hover
      ⟨dominant, List.mem_of_getElem? hi, by simp⟩
    rw [hfilter] at hselect
    exact Option.some.inj hselect
  · by_contra hne
    exact hother dominant (hbeats j dominant hne hj) rfl

theorem nested_dominates_flat :
    choose (Survivor.compare true) (fun survivor => survivor.impl.interfaceName)
        Circle.flat [Circle.nested, Circle.flat] = .winner Circle.nested ∧
      ∀ j, [Circle.flat, Circle.nested, Circle.flat][j]? = some Circle.nested → j = 1 := by
  refine (dominant_survivor_wins true).2 Circle.flat [Circle.nested, Circle.flat] 1 Circle.nested
    rfl ?_
  intro j other hne hj
  rcases j with _ | _ | _ | j
  · obtain rfl : Circle.flat = other := by simpa using hj
    decide
  · exact absurd rfl hne
  · obtain rfl : Circle.flat = other := by simpa using hj
    decide
  · simp at hj

-- A survivor whose target leaves nothing open is more specific than one whose target does.
theorem Survivor.compare_of_concrete (preferUser : Bool) {a b : Survivor}
    (ha : a.impl.isConcrete = true) (hb : b.impl.isConcrete = false) :
    a.compare preferUser b = .gt := by
  simp [Survivor.compare, ha, hb]

-- If some survivor is concrete, only concrete ones are left by the choice. The others have no
-- part in it: without them the choice is the same.
theorem concrete_survivors_decide (preferUser : Bool) (first : Survivor) (rest : List Survivor)
    (h : ∃ survivor ∈ first :: rest, survivor.impl.isConcrete = true) :
    (∀ survivor ∈ (choose (Survivor.compare preferUser)
        (fun survivor => survivor.impl.interfaceName) first rest).candidates,
      survivor.impl.isConcrete = true) ∧
    some (choose (Survivor.compare preferUser) (fun survivor => survivor.impl.interfaceName)
        first rest) =
      select (Survivor.compare preferUser) (fun survivor => survivor.impl.interfaceName)
        ((first :: rest).filter fun survivor => survivor.impl.isConcrete) := by
  have hover : Overtops (Survivor.compare preferUser) (fun survivor => survivor.impl.isConcrete)
      (first :: rest) :=
    fun a _ b _ ha hb => Survivor.compare_of_concrete preferUser ha hb
  have hselect := select_filter (fun survivor => survivor.impl.interfaceName) hover h
  refine ⟨fun survivor hmem => ?_, hselect⟩
  have hleft := select_candidates_subset hselect.symm hmem
  exact (List.mem_filter.mp hleft).2

namespace Circle

-- An implementation for arrays of arrays of booleans and nothing else.
def exactImpl : Implementation := { interface := { name := "Show" }, target := subject }

def exact : Survivor := ⟨exactImpl, ⟨[("Self", subject)]⟩, [], 3⟩

end Circle

-- Two concrete survivors among others that are more constrained than they are: the tie is
-- between the two.
theorem exact_survivors_tied :
    choose (Survivor.compare true) (fun survivor => survivor.impl.interfaceName)
        Circle.general [Circle.exact, Circle.flat, Circle.exact, Circle.nested] =
          .tied [Circle.exact, Circle.exact] ∧
      ∀ survivor ∈ (choose (Survivor.compare true) (fun survivor => survivor.impl.interfaceName)
          Circle.general [Circle.exact, Circle.flat, Circle.exact, Circle.nested]).candidates,
        survivor.impl.isConcrete = true :=
  ⟨rfl, (concrete_survivors_decide true Circle.general
    [Circle.exact, Circle.flat, Circle.exact, Circle.nested]
    ⟨Circle.exact, by simp, by decide⟩).1⟩

end Conformance
