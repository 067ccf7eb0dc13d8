import Mathlib.Algebra.Group.Basic
import Mathlib.Data.List.Perm.Basic

namespace Conformance

section Orders

variable {α β γ : Type}

-- No order of two lists changes the answer about them.
def OrderIrrelevant (answer : List β → List α → Option γ) (items : List β) (places : List α) :
    Prop :=
  ∀ items' places', items'.Perm items → places'.Perm places →
    answer items' places' = answer items places

def NoneInAnyOrder (answer : List β → List α → Option γ) (items : List β) (places : List α) :
    Prop :=
  ∀ items' places', items'.Perm items → places'.Perm places → answer items' places' = none

theorem NoneInAnyOrder.orderIrrelevant {answer : List β → List α → Option γ} {items : List β}
    {places : List α} (h : NoneInAnyOrder answer items places) :
    OrderIrrelevant answer items places := by
  intro items' places' hitems hplaces
  rw [h items' places' hitems hplaces, h items places (.refl _) (.refl _)]

-- It is enough that every order gives what any other order gives.
theorem OrderIrrelevant.of_forall {answer : List β → List α → Option γ} {items : List β}
    {places : List α} (h : ∀ items' items'' places' places'', items'.Perm items →
      items''.Perm items → places'.Perm places → places''.Perm places →
      ∀ value, answer items' places' = some value → answer items'' places'' = some value) :
    OrderIrrelevant answer items places := by
  intro items' places' hitems hplaces
  apply Option.ext
  intro value
  exact ⟨h items' items places' places hitems (.refl _) hplaces (.refl _) value,
    h items items' places places' (.refl _) hitems (.refl _) hplaces value⟩

theorem exists_perm_cons {a : α} {l : List α} (h : a ∈ l) : ∃ rest, l.Perm (a :: rest) := by
  obtain ⟨before, after, rfl⟩ := List.append_of_mem h
  exact ⟨before ++ after, List.perm_middle⟩

-- Any answer can come first, so the first answer is the same in every order only if there is no
-- other.
theorem findSome?_perm_iff {f : α → Option γ} {l : List α} :
    (∀ l' : List α, l'.Perm l → l'.findSome? f = l.findSome? f) ↔
      ∀ x ∈ l, ∀ y ∈ l, ∀ p q, f x = some p → f y = some q → p = q := by
  constructor
  · intro hsame x hx y hy p q hp hq
    have hfirst {z : α} {r : γ} (hz : z ∈ l) (hr : f z = some r) : l.findSome? f = some r := by
      obtain ⟨rest, hperm⟩ := exists_perm_cons hz
      rw [← hsame _ hperm.symm, List.findSome?_cons, hr]
    exact Option.some.inj ((hfirst hx hp).symm.trans (hfirst hy hq))
  · intro hunique l' hperm
    apply Option.ext
    intro p
    have hfound {left right : List α} (hleft : left.Perm l) (hright : right.Perm l)
        (h : left.findSome? f = some p) : right.findSome? f = some p := by
      obtain ⟨x, hx, hp⟩ := List.exists_of_findSome?_eq_some h
      cases hother : right.findSome? f with
      | none =>
          have hnone := List.findSome?_eq_none_iff.mp hother x
            (hright.mem_iff.mpr (hleft.mem_iff.mp hx))
          simp [hp] at hnone
      | some q =>
          obtain ⟨y, hy, hq⟩ := List.exists_of_findSome?_eq_some hother
          rw [hunique x (hleft.mem_iff.mp hx) y (hright.mem_iff.mp hy) p q hp hq]
    exact ⟨hfound hperm (.refl _), hfound (.refl _) hperm⟩

end Orders

-- Items take places one after the other: each takes the first place left that fits, and no
-- choice is undone. What an item earns depends on its place, and a place does not fit if what it
-- earns does not go with what was earned before. The order of the items and of the places makes
-- no difference if items that fit a place in common can exchange their places without loss; and
-- if everything goes together, it makes a difference in all other cases, unless no order gives
-- every item a place.

namespace FirstFit

variable {α β M : Type}

section Definitions

variable [AddCommMonoid M] (ok : M → Prop) [DecidablePred ok] (earned : α → β → Option M)

-- The first place that fits, with what is earned then and the places left over.
def take (before : M) (item : β) : List α → Option (M × List α)
  | [] => none
  | place :: places =>
      match (earned place item).filter fun points => ok (before + points) with
      | some points => some (before + points, places)
      | none => (take before item places).map fun (now, others) => (now, place :: others)

def run (before : M) : List β → List α → Option M
  | [], _ => some before
  | item :: items, places => do
      let (now, others) ← take ok earned before item places
      run now items others

-- Items and places side by side, with what they earn together.
inductive Pairs : List β → List α → M → Prop
  | nil : Pairs [] [] 0
  | cons {item : β} {place : α} {items : List β} {places : List α} {points rest : M} :
      earned place item = some points → Pairs items places rest →
      Pairs (item :: items) (place :: places) (points + rest)

-- There is a place for every item and an item for every place.
def Fills (items : List β) (places : List α) (points : M) : Prop :=
  ∃ order, order.Perm places ∧ Pairs earned items order points

-- Two items that fit one place can change places, and together they earn the same.
def Exchangeable (items : List β) (places : List α) : Prop :=
  ∀ t ∈ items, ∀ u ∈ items, ∀ x ∈ places, ∀ y ∈ places, ∀ p q r,
    earned x t = some p → earned y t = some q → earned x u = some r →
    ∃ v, earned y u = some v ∧ p + v = q + r

end Definitions

section Fills

variable [AddCommMonoid M] {earned : α → β → Option M} {items items' : List β}
  {places places' : List α} {item : β} {place : α} {points rest : M}

theorem Pairs.length_eq (h : Pairs earned items places points) :
    items.length = places.length := by
  induction h with
  | nil => rfl
  | cons _ _ ih => simp [ih]

namespace Fills

theorem perm_places (h : Fills earned items places points) (hplaces : places.Perm places') :
    Fills earned items places' points := by
  obtain ⟨order, horder, hpairs⟩ := h
  exact ⟨order, horder.trans hplaces, hpairs⟩

theorem nil : Fills earned [] [] 0 := ⟨[], .refl _, .nil⟩

theorem cons (hfirst : earned place item = some points) (h : Fills earned items places rest) :
    Fills earned (item :: items) (place :: places) (points + rest) := by
  obtain ⟨order, horder, hpairs⟩ := h
  exact ⟨place :: order, horder.cons place, .cons hfirst hpairs⟩

theorem uncons (h : Fills earned (item :: items) places points) :
    ∃ place others own rest, places.Perm (place :: others) ∧ earned place item = some own ∧
      Fills earned items others rest ∧ points = own + rest := by
  obtain ⟨order, horder, hpairs⟩ := h
  cases hpairs with
  | cons hfirst hrest => exact ⟨_, _, _, _, horder.symm, hfirst, ⟨_, .refl _, hrest⟩, rfl⟩

theorem perm_items (h : Fills earned items places points) (hitems : items.Perm items') :
    Fills earned items' places points := by
  induction hitems generalizing places points with
  | nil => exact h
  | cons item _ ih =>
      obtain ⟨place, others, own, rest, hperm, hfirst, hrest, rfl⟩ := h.uncons
      exact ((ih hrest).cons hfirst).perm_places hperm.symm
  | swap second first items =>
      obtain ⟨place, others, own, rest, hperm, hfirst, hrest, rfl⟩ := h.uncons
      obtain ⟨place', others', own', rest', hperm', hsecond, hrest', rfl⟩ := hrest.uncons
      have hswapped := (hrest'.cons hfirst).cons hsecond
      rw [add_left_comm]
      refine hswapped.perm_places ?_
      exact (List.Perm.swap _ _ _).trans ((hperm'.symm.cons place).trans hperm.symm)
  | trans _ _ ih ih' => exact ih' (ih h)

-- Every place has an item, which can be taken out together with it.
theorem item_of_place (h : Fills earned items places points) (hplace : place ∈ places) :
    ∃ item left others own rest, items.Perm (item :: left) ∧ places.Perm (place :: others) ∧
      earned place item = some own ∧ Fills earned left others rest ∧ points = own + rest := by
  induction items generalizing places points with
  | nil =>
      obtain ⟨order, horder, hpairs⟩ := h
      cases hpairs
      simp [List.nil_perm.mp horder] at hplace
  | cons first items ih =>
      obtain ⟨taken, others, own, rest, hperm, hfirst, hrest, rfl⟩ := h.uncons
      rcases List.mem_cons.mp (hperm.mem_iff.mp hplace) with rfl | hplace
      · exact ⟨first, items, others, own, rest, .refl _, hperm, hfirst, hrest, rfl⟩
      · obtain ⟨item, left, others', own', rest', hitems, hothers, hitem, hleft, rfl⟩ :=
          ih hrest hplace
        refine ⟨item, first :: left, taken :: others', own', own + rest', ?_, ?_, hitem,
          hleft.cons hfirst, add_left_comm _ _ _⟩
        · exact (hitems.cons first).trans (List.Perm.swap _ _ _)
        · exact hperm.trans ((hothers.cons taken).trans (List.Perm.swap _ _ _))

end Fills

-- An item with one place to fit has nothing to exchange.
theorem Exchangeable.of_unique (h : ∀ t ∈ items, ∀ x ∈ places, ∀ y ∈ places,
    (earned x t).isSome → (earned y t).isSome → x = y) : Exchangeable earned items places := by
  intro t ht u _ x hx y hy p q r hp hq hr
  obtain rfl := h t ht x hx y hy (by rw [hp]; rfl) (by rw [hq]; rfl)
  obtain rfl : p = q := Option.some.inj (hp.symm.trans hq)
  exact ⟨r, hr, rfl⟩

theorem Exchangeable.mono (h : Exchangeable earned items places) (hitems : items' ⊆ items)
    (hplaces : places' ⊆ places) : Exchangeable earned items' places' :=
  fun t ht u hu x hx y hy => h t (hitems ht) u (hitems hu) x (hplaces hx) y (hplaces hy)

end Fills

section Runs

variable [AddCommMonoid M] {ok : M → Prop} [DecidablePred ok] {earned : α → β → Option M}
  {items items' : List β} {places places' : List α} {item : β} {place : α}
  {before now points : M}

theorem take_eq_some {others : List α}
    (h : take ok earned before item places = some (now, others)) :
    ∃ place points, places.Perm (place :: others) ∧ earned place item = some points ∧
      ok now ∧ now = before + points := by
  induction places generalizing others with
  | nil => cases h
  | cons first places ih =>
      rw [take] at h
      cases hfirst : (earned first item).filter fun points => ok (before + points) with
      | some points =>
          obtain ⟨rfl, rfl⟩ : before + points = now ∧ places = others := by
            simpa [hfirst] using h
          obtain ⟨hearned, hok⟩ := Option.filter_eq_some_iff.mp hfirst
          exact ⟨first, points, List.Perm.refl _, hearned, of_decide_eq_true hok, rfl⟩
      | none =>
          simp only [hfirst, Option.map_eq_some_iff] at h
          obtain ⟨⟨now', left⟩, htake, heq⟩ := h
          obtain ⟨rfl, rfl⟩ : now' = now ∧ first :: left = others := by simpa using heq
          obtain ⟨place, points, hperm, hplace⟩ := ih htake
          exact ⟨place, points, (hperm.cons first).trans (List.Perm.swap _ _ _), hplace⟩

theorem exists_take (hplace : place ∈ places) (h : earned place item = some points)
    (hok : ok (before + points)) :
    ∃ now others, take ok earned before item places = some (now, others) := by
  induction places with
  | nil => cases hplace
  | cons first places ih =>
      rw [take]
      cases hfirst : (earned first item).filter fun points => ok (before + points) with
      | some points => exact ⟨before + points, places, rfl⟩
      | none =>
          rcases List.mem_cons.mp hplace with rfl | hplace
          · simp [h, hok] at hfirst
          · obtain ⟨now, others, htake⟩ := ih hplace
            exact ⟨now, first :: others, by simp [htake]⟩

theorem fills_of_run (hlength : items.length = places.length) (hok : ok before)
    (h : run ok earned before items places = some now) :
    ∃ points, Fills earned items places points ∧ ok now ∧ now = before + points := by
  induction items generalizing places before with
  | nil =>
      obtain rfl := List.length_eq_zero_iff.mp hlength.symm
      obtain rfl := Option.some.inj h
      exact ⟨0, .nil, hok, (add_zero _).symm⟩
  | cons item items ih =>
      simp only [run, Option.bind_eq_bind, Option.bind_eq_some_iff] at h
      obtain ⟨⟨next, others⟩, htake, hrest⟩ := h
      obtain ⟨place, own, hperm, hfirst, hnext, rfl⟩ := take_eq_some htake
      have hothers : items.length = others.length := by
        have := hperm.length_eq
        simp only [List.length_cons] at hlength this
        omega
      obtain ⟨rest, hfills, hnow, rfl⟩ := ih hothers hnext hrest
      exact ⟨own + rest, (hfills.cons hfirst).perm_places hperm.symm, hnow, add_assoc _ _ _⟩

-- What was earned before and goes with everything changes nothing but the sum.
theorem take_add {extra : M} (hextra : ∀ m, ok (extra + m) ↔ ok m) (before : M) (item : β)
    (places : List α) : take ok earned (extra + before) item places =
      (take ok earned before item places).map fun (now, others) => (extra + now, others) := by
  induction places with
  | nil => rfl
  | cons place places ih =>
      have hfit : ((earned place item).filter fun points => ok (extra + before + points)) =
          (earned place item).filter fun points => ok (before + points) := by
        simp only [add_assoc, hextra]
      rw [take, take, hfit]
      split
      · simp [add_assoc]
      · rw [ih]
        simp [Function.comp_def]

theorem run_add {extra : M} (hextra : ∀ m, ok (extra + m) ↔ ok m) (before : M) (items : List β)
    (places : List α) : run ok earned (extra + before) items places =
      (run ok earned before items places).map (extra + ·) := by
  induction items generalizing before places with
  | nil => rfl
  | cons item items ih =>
      rw [run, run, take_add hextra]
      cases take ok earned before item places with
      | none => rfl
      | some taken => exact ih taken.1 taken.2

-- An item that takes another place than it could be given leaves its own to the item that
-- could be given the place it takes.
theorem run_of_fills (hdown : ∀ a b, ok (a + b) → ok a)
    (hexchange : Exchangeable earned items places) (h : Fills earned items places points)
    (hok : ok (before + points)) :
    run ok earned before items places = some (before + points) := by
  induction items generalizing places before points with
  | nil =>
      obtain ⟨order, -, hpairs⟩ := h
      cases hpairs
      rw [run, add_zero]
  | cons t items ih =>
      obtain ⟨y, others, q, rest, hperm, hy, hrest, rfl⟩ := h.uncons
      have hfirst : ok (before + q) := hdown _ rest (by rwa [add_assoc])
      obtain ⟨next, left, htake⟩ := exists_take (hperm.mem_iff.mpr List.mem_cons_self) hy hfirst
      obtain ⟨x, p, hleft, hx, -, rfl⟩ := take_eq_some htake
      have hfills : ∃ rest', Fills earned items left rest' ∧ p + rest' = q + rest := by
        rcases List.mem_cons.mp (hperm.mem_iff.mp (hleft.mem_iff.mpr List.mem_cons_self)) with
          rfl | hmem
        · obtain rfl : p = q := Option.some.inj (hx.symm.trans hy)
          have hsame := (hleft.symm.trans hperm).cons_inv
          exact ⟨rest, hrest.perm_places hsame.symm, rfl⟩
        · obtain ⟨u, items', others', r, rest', hitems, hothers, hu, hrest', rfl⟩ :=
            hrest.item_of_place hmem
          obtain ⟨v, hv, hsum⟩ := hexchange t List.mem_cons_self u
            (List.mem_cons_of_mem _ (hitems.mem_iff.mpr List.mem_cons_self)) x
            (hleft.mem_iff.mpr List.mem_cons_self) y (hperm.mem_iff.mpr List.mem_cons_self)
            p q r hx hy hu
          refine ⟨v + rest', ?_, by rw [← add_assoc, hsum, add_assoc]⟩
          have hswapped := (hrest'.cons hv).perm_items hitems.symm
          refine hswapped.perm_places (List.Perm.cons_inv (a := x) ?_)
          calc x :: y :: others'
            _ |>.Perm (y :: x :: others') := List.Perm.swap _ _ _
            _ |>.Perm (y :: others) := hothers.symm.cons y
            _ |>.Perm places := hperm.symm
            _ |>.Perm (x :: left) := hleft
      obtain ⟨rest', hfills, hsum⟩ := hfills
      have htotal : before + p + rest' = before + (q + rest) := by rw [add_assoc, hsum]
      have hrun := ih (hexchange.mono (List.subset_cons_self _ _) fun place hplace =>
        hleft.mem_iff.mpr (List.mem_cons_of_mem _ hplace)) hfills (by rwa [htotal])
      rw [run, htake, ← htotal]
      exact hrun

-- A run that goes through fills the places, and any order of them is filled alike.
theorem run_order_irrelevant (hdown : ∀ a b, ok (a + b) → ok a) (hok : ok before)
    (hlength : items.length = places.length) (hexchange : Exchangeable earned items places) :
    OrderIrrelevant (run ok earned before) items places := by
  refine .of_forall fun items' items'' places' places'' hitems hitems' hplaces hplaces' now
    hrun => ?_
  obtain ⟨points, hfills, hnow, rfl⟩ := fills_of_run
    (hitems.length_eq.trans (hlength.trans hplaces.length_eq.symm)) hok hrun
  have hfills' := (hfills.perm_items (hitems.trans hitems'.symm)).perm_places
    (hplaces.trans hplaces'.symm)
  exact run_of_fills hdown (hexchange.mono hitems'.subset hplaces'.subset) hfills' hnow

end Runs

section AllOrders

-- Everything goes together, every order gives every item a place, and they all earn the same.
variable [AddCancelCommMonoid M] {ok : M → Prop} [DecidablePred ok] {earned : α → β → Option M}
  {items items' : List β} {places places' : List α} {points : M} (hok : ∀ m, ok m)

include hok

-- Side by side every item finds its place first.
theorem run_append (h : Pairs earned items places points) (before : M) (items' : List β)
    (places' : List α) :
    run ok earned before (items ++ items') (places ++ places') =
      run ok earned (before + points) items' places' := by
  induction h generalizing before with
  | nil => simp
  | cons hfirst _ ih =>
      rw [List.cons_append, List.cons_append, run, take, hfirst]
      simp only [Option.filter_some, hok, decide_true, if_true, Option.bind_eq_bind,
        Option.bind_some, ih, add_assoc]

variable (hlength : items.length = places.length)
  (hrun : ∀ items' places', items'.Perm items → places'.Perm places →
    run ok earned 0 items' places' = some points)

include hrun

theorem points_of_fills {other : M} (h : Fills earned items places other) : other = points := by
  obtain ⟨order, horder, hpairs⟩ := h
  have hall := run_append hok hpairs 0 [] []
  rw [List.append_nil, List.append_nil, hrun items order (.refl _) horder, run, zero_add] at hall
  exact (Option.some.inj hall).symm

include hlength

-- Then whatever is given places first, the rest can be given places too.
theorem fills_rest {first left : List β} {taken others : List α} {own : M}
    (hfirst : Fills earned first taken own) (hitems : items.Perm (left ++ first))
    (hplaces : places.Perm (others ++ taken)) :
    ∃ rest, Fills earned left others rest ∧ points = own + rest := by
  obtain ⟨order, horder, hpairs⟩ := hfirst
  have hall := hrun (first ++ left) (order ++ others) (List.perm_append_comm.trans hitems.symm)
    ((List.perm_append_comm.trans (horder.append_left others)).trans hplaces.symm)
  rw [run_append hok hpairs, zero_add] at hall
  have hrest : left.length = others.length := by
    have hcount := hitems.length_eq
    have hcount' := hplaces.length_eq
    have hside := hpairs.length_eq
    have hsame := horder.length_eq
    simp only [List.length_append] at hcount hcount'
    omega
  obtain ⟨rest, hfills, -, hsum⟩ := fills_of_run hrest (hok own) hall
  exact ⟨rest, hfills, hsum⟩

theorem fits_rest {t : β} {x : α} {first : List β} {taken : List α} {own : M}
    (hfirst : Fills earned first taken own) (hitems : items.Perm (t :: first))
    (hplaces : places.Perm (x :: taken)) : ∃ v, earned x t = some v := by
  have hrest : ∃ rest, Fills earned [t] [x] rest ∧ points = own + rest :=
    fills_rest hok hlength hrun hfirst hitems hplaces
  obtain ⟨_, hfills, -⟩ := hrest
  obtain ⟨place, others, v, _, hperm, hv, -⟩ := hfills.uncons
  obtain ⟨rfl, -⟩ : x = place ∧ others = [] := by simpa using hperm
  exact ⟨v, hv⟩

-- `t` and `u` fit `x`, and `t` fits `y`. Where `t` has `x`, the items that then have `y` and the
-- place of `u` fit each other, since `t` and `u` could have taken `y` and `x` before them. So they
-- can be put together, which leaves `u` and `y`.
theorem fits_exchanged {t u : β} {x y : α} {ts : List β} {xs : List α} {p q r : M}
    (hitems : items.Perm (t :: u :: ts)) (hplaces : places.Perm (x :: y :: xs))
    (hx : earned x t = some p) (hy : earned y t = some q) (hu : earned x u = some r) :
    ∃ v, earned y u = some v := by
  obtain ⟨_, hrest, -⟩ := fills_rest hok hlength hrun (Fills.nil.cons hx)
    (hitems.trans (List.perm_append_singleton t (u :: ts)).symm)
    (hplaces.trans (List.perm_append_singleton x (y :: xs)).symm)
  obtain ⟨z, others, v, _, hothers, hz, hrest, -⟩ := hrest.uncons
  by_cases hzy : y = z
  · exact ⟨v, hzy ▸ hz⟩
  · have hmem : y ∈ others := by
      have := hothers.mem_iff.mp List.mem_cons_self
      exact (List.mem_cons.mp this).resolve_left hzy
    obtain ⟨w, ts', xs', _, _, hts, hxs, -, hrest', -⟩ := hrest.item_of_place hmem
    have hplaces' : places.Perm (x :: z :: y :: xs') :=
      hplaces.trans ((hothers.trans (hxs.cons z)).cons x)
    have hitems' : items.Perm (t :: u :: w :: ts') := hitems.trans ((hts.cons u).cons t)
    obtain ⟨_, hw⟩ : ∃ v, earned z w = some v := by
      refine fits_rest hok hlength hrun ((hrest'.cons hu).cons hy) (hitems'.trans ?_)
        (hplaces'.trans ?_)
      · exact (List.perm_middle : ([t, u] ++ w :: ts').Perm (w :: [t, u] ++ ts'))
      · exact (List.Perm.swap z x (y :: xs')).trans ((List.Perm.swap y x xs').cons z)
    refine fits_rest hok hlength hrun ((hrest'.cons hw).cons hx) (hitems'.trans ?_)
      (hplaces'.trans ?_)
    · exact List.Perm.swap u t (w :: ts')
    · exact (List.perm_middle : ([x, z] ++ y :: xs').Perm (y :: [x, z] ++ xs'))

theorem exchangeable_of_run : Exchangeable earned items places := by
  intro t ht u hu x hx y hy p q r hp hq hr
  by_cases htu : t = u
  · subst htu
    obtain rfl : p = r := Option.some.inj (hp.symm.trans hr)
    exact ⟨q, hq, add_comm _ _⟩
  by_cases hxy : x = y
  · subst hxy
    obtain rfl : p = q := Option.some.inj (hp.symm.trans hq)
    exact ⟨r, hr, rfl⟩
  obtain ⟨_, ht'⟩ := exists_perm_cons ht
  obtain ⟨ts, hts⟩ := exists_perm_cons
    ((List.mem_cons.mp (ht'.mem_iff.mp hu)).resolve_left fun h => htu h.symm)
  obtain ⟨_, hx'⟩ := exists_perm_cons hx
  obtain ⟨xs, hxs⟩ := exists_perm_cons
    ((List.mem_cons.mp (hx'.mem_iff.mp hy)).resolve_left fun h => hxy h.symm)
  have hitems := ht'.trans (hts.cons t)
  have hplaces := hx'.trans (hxs.cons x)
  obtain ⟨v, hv⟩ := fits_exchanged hok hlength hrun hitems hplaces hp hq hr
  refine ⟨v, hv, ?_⟩
  -- The two ways to give `t` and `u` their places are completed alike.
  obtain ⟨rest, hrest, hsum⟩ := fills_rest hok hlength hrun ((Fills.nil.cons hv).cons hp)
    (hitems.trans (List.perm_append_comm : ([t, u] ++ ts).Perm (ts ++ [t, u])))
    (hplaces.trans (List.perm_append_comm : ([x, y] ++ xs).Perm (xs ++ [x, y])))
  have hswapped := ((hrest.cons hr).cons hq).perm_items hitems.symm
  have hother := points_of_fills hok hrun
    (hswapped.perm_places ((List.Perm.swap x y xs).trans hplaces.symm))
  rw [hsum, add_zero, ← add_assoc] at hother
  exact (add_right_cancel hother).symm

end AllOrders

-- If everything goes together, the order makes no difference exactly if it makes no difference
-- who of two items that fit one place gets it, or if no order gives every item a place.
theorem run_order_irrelevant_iff [AddCancelCommMonoid M] {ok : M → Prop} [DecidablePred ok]
    (hok : ∀ m, ok m) {earned : α → β → Option M} {items : List β} {places : List α}
    (hlength : items.length = places.length) :
    OrderIrrelevant (run ok earned 0) items places ↔
      NoneInAnyOrder (run ok earned 0) items places ∨ Exchangeable earned items places := by
  constructor
  · intro hsame
    cases hrun : run ok earned 0 items places with
    | none =>
        left
        intro items' places' hitems hplaces
        rw [hsame items' places' hitems hplaces, hrun]
    | some points =>
        right
        have hall (items' : List β) (places' : List α) (hitems : items'.Perm items)
            (hplaces : places'.Perm places) :
            run ok earned 0 items' places' = some points := by
          rw [hsame items' places' hitems hplaces, hrun]
        exact exchangeable_of_run hok hlength hall
  · rintro (hnone | hexchange)
    · exact hnone.orderIrrelevant
    · exact run_order_irrelevant (fun a _ _ => hok a) (hok 0) hlength hexchange

end FirstFit

end Conformance
