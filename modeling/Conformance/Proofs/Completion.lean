import Conformance.Resolution
import Mathlib.Tactic.SplitIfs

namespace Conformance

namespace Bindings

variable {α : Type}

theorem get?_insertIfNew (b : Bindings α) (name other : String) (value : α) :
    (b.insertIfNew name value).get? other =
      if name = other then some ((b.get? other).getD value) else b.get? other := by
  unfold insertIfNew contains
  by_cases hbound : (b.get? name).isSome = true
  · obtain ⟨old, hold⟩ := Option.isSome_iff_exists.mp hbound
    simp only [hbound, if_true]
    split_ifs with heq
    · subst heq
      simp [hold]
    · rfl
  · have hnone : b.get? name = none := by simpa using hbound
    simp only [hbound, Bool.false_eq_true, if_false, get?_insert]
    split_ifs with heq
    · subst heq
      simp [hnone]
    · rfl

end Bindings

namespace Substitution

-- A later substitution binds all that an earlier one binds, to the same types.
def Keeps (earlier later : Substitution) : Prop :=
  ∀ name t, earlier.get? name = some t → later.get? name = some t

theorem Keeps.refl (s : Substitution) : Keeps s s := fun _ _ h => h

theorem Keeps.trans {first second third : Substitution} (h : Keeps first second)
    (h' : Keeps second third) : Keeps first third :=
  fun name t hbound => h' name t (h name t hbound)

theorem Keeps.isSome {earlier later : Substitution} (h : Keeps earlier later) {name : String}
    (hbound : (earlier.get? name).isSome) : (later.get? name).isSome := by
  obtain ⟨t, ht⟩ := Option.isSome_iff_exists.mp hbound
  simp [h name t ht]

theorem keeps_insertIfNew (s : Substitution) (name : String) (t : Ty) :
    Keeps s (s.insertIfNew name t) := by
  intro other bound hbound
  rw [Bindings.get?_insertIfNew, hbound]
  simp

theorem isSome_insertIfNew (s : Substitution) (name : String) (t : Ty) :
    ((s.insertIfNew name t).get? name).isSome := by
  simp [Bindings.get?_insertIfNew]

-- The parameters of the interface come on top of what is bound, and all of them do.
theorem keeps_bindGenerics (generics : List (TypeParam Ty)) (args : List Ty) (s : Substitution) :
    Keeps s (bindGenerics generics args s) := by
  induction generics generalizing args s with
  | nil => exact .refl s
  | cons generic generics ih => exact (keeps_insertIfNew s _ _).trans (ih args.tail _)

theorem isSome_bindGenerics (generics : List (TypeParam Ty)) (args : List Ty) (s : Substitution)
    {generic : TypeParam Ty} (h : generic ∈ generics) :
    ((bindGenerics generics args s).get? generic.name).isSome := by
  induction generics generalizing args s with
  | nil => simp at h
  | cons first generics ih =>
      rcases List.mem_cons.mp h with rfl | h
      · exact (keeps_bindGenerics generics args.tail _).isSome (isSome_insertIfNew s _ _)
      · exact ih args.tail _ h

-- The parameters are bound one after the other, and some of them can be bound ahead of the rest.
theorem bindGenerics_take_drop (i : Nat) (generics : List (TypeParam Ty)) (args : List Ty)
    (s : Substitution) :
    bindGenerics generics args s =
      bindGenerics (generics.drop i) (args.drop i) (bindGenerics (generics.take i) args s) := by
  induction i generalizing generics args s with
  | zero => rfl
  | succ i ih =>
      cases generics with
      | nil => rfl
      | cons generic generics =>
          rw [bindGenerics, ih, List.drop_tail]
          rfl

theorem get?_bindGenerics_of_not_mem (generics : List (TypeParam Ty)) (args : List Ty)
    (s : Substitution) {name : String} (h : name ∉ TypeParam.names generics) :
    (bindGenerics generics args s).get? name = s.get? name := by
  induction generics generalizing args s with
  | nil => rfl
  | cons generic generics ih =>
      obtain ⟨hne, hrest⟩ : name ≠ generic.name ∧ name ∉ TypeParam.names generics := by
        simpa [TypeParam.names] using h
      rw [bindGenerics, ih _ _ hrest, Bindings.get?_insertIfNew, if_neg (Ne.symm hne)]

-- A parameter keeps the meaning that it has when it is reached, and takes its argument if it
-- has none.
theorem get?_bindGenerics_at {generics : List (TypeParam Ty)} {args : List Ty} {i : Nat}
    {param : TypeParam Ty} {arg : Ty} (hparam : generics[i]? = some param)
    (harg : args[i]? = some arg) (s : Substitution) :
    (bindGenerics generics args s).get? param.name =
      some (((bindGenerics (generics.take i) args s).get? param.name).getD
        (arg.substitute (bindGenerics (generics.take i) args s))) := by
  have hgenerics : generics.drop i = param :: generics.drop (i + 1) := by
    obtain ⟨hi, rfl⟩ := List.getElem?_eq_some_iff.mp hparam
    exact List.drop_eq_getElem_cons hi
  have hhead : (args.drop i).head? = some arg := by rw [List.head?_drop, harg]
  rw [bindGenerics_take_drop i, hgenerics, bindGenerics, hhead]
  apply keeps_bindGenerics
  rw [Bindings.get?_insertIfNew, if_pos rfl]
  rfl

theorem keeps_close (m : Match) (generics : List (TypeParam Ty)) :
    Keeps m.substitution (m.close generics).substitution := by
  obtain ⟨s, score⟩ := m
  simp only [Match.close]
  induction generics generalizing s with
  | nil => exact .refl s
  | cons generic generics ih => exact (keeps_insertIfNew s _ _).trans (ih _)

theorem isSome_close (m : Match) (generics : List (TypeParam Ty)) {generic : TypeParam Ty}
    (h : generic ∈ generics) : (((m.close generics).substitution).get? generic.name).isSome := by
  obtain ⟨s, score⟩ := m
  induction generics generalizing s with
  | nil => simp at h
  | cons first generics ih =>
      rcases List.mem_cons.mp h with rfl | h
      · exact (keeps_close ⟨s.insertIfNew generic.name .unknown, score⟩ generics).isSome
          (isSome_insertIfNew s _ _)
      · exact ih h _

theorem get?_close_of_not_mem (m : Match) (generics : List (TypeParam Ty)) {name : String}
    (h : name ∉ TypeParam.names generics) :
    (m.close generics).substitution.get? name = m.substitution.get? name := by
  obtain ⟨s, score⟩ := m
  simp only [Match.close]
  induction generics generalizing s with
  | nil => rfl
  | cons generic generics ih =>
      obtain ⟨hne, hrest⟩ : name ≠ generic.name ∧ name ∉ TypeParam.names generics := by
        simpa [TypeParam.names] using h
      rw [List.foldl_cons, ih hrest, Bindings.get?_insertIfNew, if_neg (Ne.symm hne)]

theorem mem_constructorPlaceholders {env : Environment} {interface : InterfaceDecl} {name : String}
    (h : name ∈ interface.constructorPlaceholders env) :
    env.isPlaceholder interface.genericNames name = true := by
  unfold InterfaceDecl.constructorPlaceholders at h
  split at h
  · simp at h
  · exact (List.mem_filter.mp (List.mem_eraseDups.mp h)).2

-- Giving placeholders a meaning leaves all other names alone.
theorem get?_foldl_insertOpen (constructor : Ty) (names : List String) (s : Substitution)
    {name : String} (h : name ∉ names) :
    (names.foldl (fun s name => if isOpen s name then s.insert name constructor else s) s).get?
      name = s.get? name := by
  induction names generalizing s with
  | nil => rfl
  | cons first names ih =>
      obtain ⟨hne, hrest⟩ : name ≠ first ∧ name ∉ names := by simpa using h
      rw [List.foldl_cons, ih _ hrest]
      split_ifs
      · rw [Bindings.get?_insert, if_neg (Ne.symm hne)]
      · rfl

-- A placeholder that has a meaning keeps it.
theorem get?_foldl_insertClosed (constructor : Ty) (names : List String) (s : Substitution)
    {name : String} (h : s.isOpen name = false) :
    (names.foldl (fun s name => if isOpen s name then s.insert name constructor else s) s).get?
      name = s.get? name := by
  induction names generalizing s with
  | nil => rfl
  | cons first names ih =>
      rw [List.foldl_cons]
      split_ifs with hopen
      · have hne : first ≠ name := by
          rintro rfl
          simp [h] at hopen
        have hget : (Bindings.insert s first constructor).get? name = s.get? name := by
          rw [Bindings.get?_insert, if_neg hne]
        rw [ih _ (by simpa only [isOpen, hget] using h), hget]
      · exact ih s h

theorem isSome_foldl_insertOpen (constructor : Ty) (names : List String) (s : Substitution)
    {name : String} (h : (s.get? name).isSome) :
    ((names.foldl (fun s name => if isOpen s name then s.insert name constructor else s) s).get?
      name).isSome := by
  induction names generalizing s with
  | nil => exact h
  | cons first names ih =>
      rw [List.foldl_cons]
      apply ih
      split_ifs
      · rw [Bindings.get?_insert]
        split_ifs
        · rfl
        · exact h
      · exact h

theorem get?_bindConstructors_of_not_mem (s : Substitution) {env : Environment}
    {interface : InterfaceDecl} (subject : Ty) {name : String}
    (h : name ∉ interface.constructorPlaceholders env) :
    (s.bindConstructors env interface subject).get? name = s.get? name := by
  simp only [bindConstructors]
  split_ifs
  · rfl
  · exact get?_foldl_insertOpen _ _ s h

-- `Self` is never a placeholder.
theorem get?_bindConstructors_self (s : Substitution) (env : Environment)
    (interface : InterfaceDecl) (subject : Ty) :
    (s.bindConstructors env interface subject).get? "Self" = s.get? "Self" := by
  apply get?_bindConstructors_of_not_mem
  intro h
  have hself := mem_constructorPlaceholders h
  simp [Environment.isPlaceholder] at hself

-- A name that stands for something other than itself is not open.
theorem isOpen_eq_false {s : Substitution} {name : String} {t : Ty} (h : s.get? name = some t)
    (hunknown : t ≠ .unknown) (hparam : t ≠ .param name) : s.isOpen name = false := by
  simp only [isOpen, h]
  split
  · simp_all
  · simp_all
  · rename_i existing heq
    obtain rfl : t = .param existing := by simpa using heq
    simpa using hparam
  · rfl

theorem get?_bindConstructors_closed (s : Substitution) (env : Environment)
    (interface : InterfaceDecl) (subject : Ty) {name : String} (h : s.isOpen name = false) :
    (s.bindConstructors env interface subject).get? name = s.get? name := by
  simp only [bindConstructors]
  split_ifs
  · rfl
  · exact get?_foldl_insertClosed _ _ s h

theorem isSome_bindConstructors (s : Substitution) (env : Environment)
    (interface : InterfaceDecl) (subject : Ty) {name : String} (h : (s.get? name).isSome) :
    ((s.bindConstructors env interface subject).get? name).isSome := by
  simp only [bindConstructors]
  split_ifs
  · exact h
  · exact isSome_foldl_insertOpen _ _ s h

section Complete

variable (s : Substitution) (env : Environment) (impl : Implementation) (subject : Ty)

theorem get?_complete_self : (complete s env impl subject).get? "Self" = some subject := by
  apply keeps_close
  rw [get?_bindConstructors_self]
  apply keeps_bindGenerics
  simp

theorem isSome_complete_self : ((complete s env impl subject).get? "Self").isSome := by
  rw [get?_complete_self]
  rfl

theorem isSome_complete_generic {generic : TypeParam Ty} (h : generic ∈ impl.generics) :
    ((complete s env impl subject).get? generic.name).isSome :=
  isSome_close _ _ h

theorem isSome_complete_parameter {generic : TypeParam Ty}
    (h : generic ∈ impl.interface.generics) :
    ((complete s env impl subject).get? generic.name).isSome := by
  apply (keeps_close _ _).isSome
  apply isSome_bindConstructors
  exact isSome_bindGenerics _ _ _ h

-- The stages after the parameters of the interface change only placeholders that are open.
theorem get?_complete_bound {name : String} {t : Ty}
    (h : (bindGenerics impl.interface.generics impl.args (s.insert "Self" subject)).get? name =
      some t)
    (hopen : name ∈ impl.interface.constructorPlaceholders env → t ≠ .unknown ∧ t ≠ .param name) :
    (complete s env impl subject).get? name = some t := by
  apply keeps_close
  by_cases hmem : name ∈ impl.interface.constructorPlaceholders env
  · obtain ⟨hunknown, hparam⟩ := hopen hmem
    rw [get?_bindConstructors_closed _ _ _ _ (isOpen_eq_false h hunknown hparam)]
    exact h
  · rw [get?_bindConstructors_of_not_mem _ _ hmem]
    exact h

theorem get?_complete_unbound {name : String}
    (h : (bindGenerics impl.interface.generics impl.args (s.insert "Self" subject)).get? name =
      none)
    (hconstructor : name ∉ impl.interface.constructorPlaceholders env)
    (hgeneric : name ∉ TypeParam.names impl.generics) :
    (complete s env impl subject).get? name = none := by
  rw [complete, get?_close_of_not_mem _ _ hgeneric,
    get?_bindConstructors_of_not_mem _ _ hconstructor]
  exact h

-- No later stage undoes what the match has found, where it has found something.
theorem get?_complete_found {name : String} {t : Ty} (h : s.get? name = some t)
    (hself : name ≠ "Self") (hunknown : t ≠ .unknown) (hparam : t ≠ .param name) :
    (complete s env impl subject).get? name = some t := by
  apply get?_complete_bound
  · apply keeps_bindGenerics
    rw [Bindings.get?_insert, if_neg (Ne.symm hself), h]
  · exact fun _ => ⟨hunknown, hparam⟩

end Complete

end Substitution

end Conformance
