import Conformance.Proofs.Completion
import Conformance.Proofs.Duplicates
import Conformance.Proofs.MatchedNames

namespace Conformance

-- A resolution gives the parameters of the interface the arguments of the implementation. All
-- names live in one substitution, and a name that has a meaning keeps it, so that this holds
-- for parameters whose names nobody else uses.

def Resolution.Binds (resolution : Resolution) (param : TypeParam Ty) (arg : Ty) : Prop :=
  resolution.substitution.get? param.name = some (arg.substitute resolution.substitution)

instance (resolution : Resolution) (param : TypeParam Ty) (arg : Ty) :
    Decidable (resolution.Binds param arg) :=
  inferInstanceAs (Decidable (_ = _))

namespace Implementation

-- What is bound when the parameter of the interface at a position is reached.
def reached (impl : Implementation) (s : Substitution) (i : Nat) : Substitution :=
  Substitution.bindGenerics (impl.interface.generics.take i) impl.args s

-- The names that have a meaning by then, whatever the subject is.
def earlierNames (impl : Implementation) (i : Nat) : List String :=
  "Self" :: TypeParam.names impl.generics ++ TypeParam.names (impl.interface.generics.take i)

-- The names of an implementation and those of its interface do not meet in the parameter at a
-- position or in its argument.
structure Separates (impl : Implementation) (env : Environment) (i : Nat) (param : String)
    (arg : Ty) : Prop where
  fresh : param ∉ impl.earlierNames i
  unmatched : param ∉ impl.target.paramNames
  -- The argument mentions no parameter of the interface that is bound only later.
  settled : ∀ name ∈ arg.paramNames, name ∈ TypeParam.names (impl.interface.generics.drop i) →
    name ∈ impl.earlierNames i
  constructors : ∀ name ∈ arg.paramNames, name ∉ impl.interface.constructorPlaceholders env

variable {impl : Implementation} {env : Environment} {found : Match} {i : Nat}
  {param : TypeParam Ty} {arg : Ty} (subject : Ty)

theorem isSome_reached_self (s : Substitution) :
    ((impl.reached (s.insert "Self" subject) i).get? "Self").isSome :=
  (Substitution.keeps_bindGenerics _ _ _).isSome (by simp)

theorem isSome_reached (hfills : impl.target.Fills impl.generics found) {name : String}
    (h : name ∈ impl.earlierNames i) :
    ((impl.reached (found.substitution.insert "Self" subject) i).get? name).isSome := by
  simp only [earlierNames, List.cons_append, List.mem_cons, List.mem_append] at h
  rcases h with rfl | h | h
  · exact isSome_reached_self subject _
  · refine (Substitution.keeps_bindGenerics _ _ _).isSome ?_
    rw [Bindings.get?_insert]
    split
    · rfl
    · exact hfills.isSome_get? h
  · obtain ⟨generic, hgeneric, rfl⟩ := List.mem_map.mp h
    exact Substitution.isSome_bindGenerics _ _ _ hgeneric

theorem reached_eq_none (hfills : impl.target.Fills impl.generics found) {name : String}
    (hearlier : name ∉ impl.earlierNames i) (htarget : name ∉ impl.target.paramNames) :
    (impl.reached (found.substitution.insert "Self" subject) i).get? name = none := by
  simp only [earlierNames, List.cons_append, List.mem_cons, List.mem_append, not_or] at hearlier
  obtain ⟨hself, hgeneric, hparam⟩ := hearlier
  rw [reached, Substitution.get?_bindGenerics_of_not_mem _ _ _ hparam, Bindings.get?_insert,
    if_neg (Ne.symm hself)]
  exact hfills.get?_eq_none htarget hgeneric

-- A name that has a meaning when its turn comes keeps it.
theorem get?_of_reached {name : String} {t : Ty}
    (hreached : (impl.reached (found.substitution.insert "Self" subject) i).get? name = some t)
    (hconstructor : name ∉ impl.interface.constructorPlaceholders env) :
    (Substitution.complete found.substitution env impl subject).get? name = some t := by
  apply Substitution.get?_complete_bound
  · rw [Substitution.bindGenerics_take_drop i]
    exact Substitution.keeps_bindGenerics _ _ _ name t hreached
  · exact fun hmem => absurd hmem hconstructor

-- The rest of the parameters and the stages after them add nothing that the argument mentions.
theorem get?_reached (hfills : impl.target.Fills impl.generics found) {name : String}
    (hsettled : name ∈ TypeParam.names (impl.interface.generics.drop i) →
      name ∈ impl.earlierNames i)
    (hconstructor : name ∉ impl.interface.constructorPlaceholders env) :
    (impl.reached (found.substitution.insert "Self" subject) i).get? name =
      (Substitution.complete found.substitution env impl subject).get? name := by
  cases hreached : (impl.reached (found.substitution.insert "Self" subject) i).get? name with
  | some t => exact (get?_of_reached subject hreached hconstructor).symm
  | none =>
      have hearlier : name ∉ impl.earlierNames i := fun hmem => by
        simpa [hreached] using isSome_reached subject hfills hmem
      have hlater := fun hmem => hearlier (hsettled hmem)
      symm
      apply Substitution.get?_complete_unbound _ _ _ _ _ hconstructor
      · intro hmem
        exact hearlier (by simp [earlierNames, hmem])
      · rw [Substitution.bindGenerics_take_drop i,
          Substitution.get?_bindGenerics_of_not_mem _ _ _ hlater]
        exact hreached

-- A parameter with a name of its own is given its argument, unless it is left to stand for a
-- constructor.
theorem binds_of_separates (hfills : impl.target.Fills impl.generics found)
    (hparam : impl.interface.generics[i]? = some param) (harg : impl.args[i]? = some arg)
    (hseparates : impl.Separates env i param.name arg) {s : Substitution}
    (hs : s = Substitution.complete found.substitution env impl subject)
    (hclosed : param.name ∈ impl.interface.constructorPlaceholders env →
      arg.substitute s ≠ .unknown ∧ arg.substitute s ≠ .param param.name) :
    s.get? param.name = some (arg.substitute s) := by
  have hmeaning : arg.substitute (impl.reached (found.substitution.insert "Self" subject) i) =
      arg.substitute s := by
    rw [hs, Ty.substitute_eq_instantiate (isSome_reached_self subject _),
      Ty.substitute_eq_instantiate (Substitution.isSome_complete_self _ _ _ _)]
    exact Ty.instantiate_congr arg fun name hname => get?_reached subject hfills
      (hseparates.settled name hname) (hseparates.constructors name hname)
  have hbound := Substitution.get?_bindGenerics_at hparam harg
    (found.substitution.insert "Self" subject)
  have hfresh := reached_eq_none subject hfills hseparates.fresh hseparates.unmatched
  rw [reached] at hmeaning hfresh
  rw [hfresh, Option.getD_none, hmeaning] at hbound
  nth_rewrite 1 [hs]
  exact Substitution.get?_complete_bound _ _ _ _ hbound hclosed

end Implementation

namespace Resolver

-- What is known of the implementation that a resolution comes from: the match that it stands
-- on and the substitution that completes it.
theorem chosen?_matched {r : Resolver} {goal : Goal} {survivor : Survivor}
    (h : r.chosen? goal = some survivor) :
    ∃ found, r.matchTargetIn (r.explorer (r.options.maxDepth - 1)) [goal] goal.subject
        survivor.impl.target survivor.impl.generics = some found ∧
      survivor.substitution =
        Substitution.complete found.substitution r.env survivor.impl goal.subject := by
  obtain ⟨-, hassess⟩ := mem_survivors (chosen?_mem h)
  obtain ⟨found, hfound, -, hs, -⟩ := (r.assess_survivor?_eq_some_iff _ _ _ _ _).mp hassess
  exact ⟨found, hfound, hs⟩

end Resolver

-- A parameter of the interface is bound to the argument in its place if it is that argument or
-- has a name of its own. A parameter that has a meaning before its turn keeps it, whatever the
-- argument is.
theorem interface_parameter_bound (r : Resolver) (subject : Ty) (interface : String)
    (args : List Ty) (resolution : Resolution)
    (h : r.resolve subject interface args = .resolved resolution) :
    ∃ survivor found,
      r.chosen? (Goal.lookup subject interface args) = some survivor ∧
      resolution = survivor.resolution (Goal.lookup subject interface args) ∧
      r.matchTargetIn (r.explorer (r.options.maxDepth - 1)) [Goal.lookup subject interface args]
        subject survivor.impl.target survivor.impl.generics = some found ∧
      ∀ (i : Nat) (param : TypeParam Ty) (arg : Ty),
        survivor.impl.interface.generics[i]? = some param → survivor.impl.args[i]? = some arg →
        arg.substitute resolution.substitution ≠ .unknown →
        (arg = .param param.name ∨
            survivor.impl.Separates r.env i param.name arg ∧
              (param.name ∈ survivor.impl.interface.constructorPlaceholders r.env →
                arg.substitute resolution.substitution ≠ .param param.name) →
          resolution.Binds param arg) ∧
        ∀ t, (survivor.impl.reached (found.substitution.insert "Self" subject) i).get?
            param.name = some t →
          param.name ∉ survivor.impl.interface.constructorPlaceholders r.env →
          (resolution.Binds param arg ↔ t = arg.substitute resolution.substitution) := by
  obtain ⟨survivor, hchosen, rfl⟩ := (r.resolve_eq_resolved_iff _ _ _ _).mp h
  obtain ⟨found, hfound, hs⟩ := Resolver.chosen?_matched hchosen
  have hfills := Resolver.fills_of_matchTargetIn hfound
  refine ⟨survivor, found, hchosen, rfl, hfound, ?_⟩
  intro i param arg hparam harg hunknown
  refine ⟨?_, ?_⟩
  · rintro (rfl | ⟨hseparates, hself⟩)
    · have hbound : (survivor.substitution.get? param.name).isSome := by
        rw [hs]
        exact Substitution.isSome_complete_parameter _ _ _ _ (List.mem_of_getElem? hparam)
      obtain ⟨t, ht⟩ := Option.isSome_iff_exists.mp hbound
      show survivor.substitution.get? param.name = some (Ty.substitute _ survivor.substitution)
      rw [Ty.substitute_eq_instantiate hbound, Ty.instantiate, ht]
      rfl
    · exact Implementation.binds_of_separates subject hfills hparam harg hseparates hs
        fun hmem => ⟨hunknown, hself hmem⟩
  · intro t hreached hconstructor
    have hkept : survivor.substitution.get? param.name = some t := by
      rw [hs]
      exact Implementation.get?_of_reached subject hreached hconstructor
    show survivor.substitution.get? param.name = some _ ↔ _
    rw [hkept, Option.some.injEq]

namespace Passing

-- The resolver that knows one implementation and its interface.
def resolver (impl : Implementation) : Resolver where
  env := Environment.define ∅ impl.interfaceName (.interface impl.interface)
  registry := ⟨[impl]⟩

-- The second argument mentions the first parameter.
def chainImpl : Implementation where
  interface := { name := "Chain", generics := [⟨"A", []⟩, ⟨"B", []⟩] }
  generics := [⟨"T", []⟩]
  target := .unary .array (.param "T")
  args := [.nullable (.param "T"), .unary .array (.param "A")]

def chain : Survivor where
  impl := chainImpl
  substitution := ⟨[("T", .i32), ("Self", .unary .array .i32), ("A", .nullable .i32),
    ("B", .unary .array (.nullable .i32))]⟩
  args := [.nullable .i32, .unary .array (.nullable .i32)]
  score := 1

def chainGoal : Goal := Goal.lookup (.unary .array .i32) "Chain" []

end Passing

theorem chained_parameters_bound :
    (Passing.resolver Passing.chainImpl).resolve (.unary .array .i32) "Chain" [] =
        .resolved (Passing.chain.resolution Passing.chainGoal) ∧
      (Passing.chain.resolution Passing.chainGoal).Binds ⟨"A", []⟩ (.nullable (.param "T")) ∧
      (Passing.chain.resolution Passing.chainGoal).Binds ⟨"B", []⟩
        (.unary .array (.param "A")) := by
  have hchosen : (Passing.resolver Passing.chainImpl).chosen? Passing.chainGoal =
      some Passing.chain := by
    decide +kernel
  have hresolved : (Passing.resolver Passing.chainImpl).resolve (.unary .array .i32)
      "Chain" [] = .resolved (Passing.chain.resolution Passing.chainGoal) :=
    (Resolver.resolve_eq_resolved_iff _ _ _ _ _).mpr ⟨_, hchosen, rfl⟩
  obtain ⟨survivor, found, hsurvivor, -, -, hbinds⟩ := interface_parameter_bound _ _ _ _ _ hresolved
  obtain rfl : Passing.chain = survivor := Option.some.inj (hchosen.symm.trans hsurvivor)
  have hfirst : Passing.chainImpl.Separates (Passing.resolver Passing.chainImpl).env 0 "A"
      (.nullable (.param "T")) :=
    ⟨by decide, by decide, by decide, by decide⟩
  have hsecond : Passing.chainImpl.Separates (Passing.resolver Passing.chainImpl).env 1 "B"
      (.unary .array (.param "A")) :=
    ⟨by decide, by decide, by decide, by decide⟩
  exact ⟨hresolved,
    (hbinds 0 ⟨"A", []⟩ _ rfl rfl (by decide +kernel)).1 (.inr ⟨hfirst, by decide⟩),
    (hbinds 1 ⟨"B", []⟩ _ rfl rfl (by decide +kernel)).1 (.inr ⟨hsecond, by decide⟩)⟩

-- A lookup that resolves and does not bind some parameter of the interface to its argument.
def Resolver.Misbinds (r : Resolver) (subject : Ty) (interface : String) (args : List Ty) : Prop :=
  ∃ resolution survivor,
    r.resolve subject interface args = .resolved resolution ∧
    r.chosen? (Goal.lookup subject interface args) = some survivor ∧
    resolution = survivor.resolution (Goal.lookup subject interface args) ∧
    ∃ (i : Nat) (param : TypeParam Ty) (arg : Ty),
      survivor.impl.interface.generics[i]? = some param ∧ survivor.impl.args[i]? = some arg ∧
      arg.substitute resolution.substitution ≠ .unknown ∧ ¬ resolution.Binds param arg

theorem Resolver.misbinds_of_chosen? {r : Resolver} {subject : Ty} {interface : String}
    {args : List Ty} {survivor : Survivor}
    (h : r.chosen? (Goal.lookup subject interface args) = some survivor) {i : Nat}
    {param : TypeParam Ty} {arg : Ty} (hparam : survivor.impl.interface.generics[i]? = some param)
    (harg : survivor.impl.args[i]? = some arg)
    (hunknown : arg.substitute survivor.substitution ≠ .unknown)
    (hbinds : ¬ (survivor.resolution (Goal.lookup subject interface args)).Binds param arg) :
    r.Misbinds subject interface args :=
  ⟨_, survivor, (r.resolve_eq_resolved_iff _ _ _ _).mpr ⟨survivor, h, rfl⟩, h, rfl, i, param, arg,
    hparam, harg, hunknown, hbinds⟩

namespace Passing

-- The implementation and its interface both call their parameter `T`.
def sharedImpl : Implementation where
  interface := { name := "Into", generics := [⟨"T", []⟩] }
  generics := [⟨"T", []⟩]
  target := .unary .array (.param "T")
  args := [.string]

def shared : Survivor where
  impl := sharedImpl
  substitution := ⟨[("T", .i32), ("Self", .unary .array .i32)]⟩
  args := [.string]
  score := 1

-- The first argument is the parameter that is bound after it.
def laterImpl : Implementation where
  interface := { name := "Pair", generics := [⟨"A", []⟩, ⟨"B", []⟩] }
  target := .i32
  args := [.param "B", .string]

def later : Survivor where
  impl := laterImpl
  substitution := ⟨[("Self", .i32), ("A", .param "B"), ("B", .string)]⟩
  args := [.string, .string]
  score := 1

-- An interface for constructors, which its self pattern calls `M`.
def wrapper (params : List (TypeParam Ty)) : InterfaceDecl where
  name := "Wrapper"
  generics := params
  selfPattern := some (.generic (.simple "M" default) [.wildcard default] default)

-- The argument is the name of the constructor.
def namedImpl : Implementation where
  interface := wrapper [⟨"A", []⟩]
  target := .unary .array .i32
  args := [.param "M"]

def named : Survivor where
  impl := namedImpl
  substitution := ⟨[("Self", .unary .array .i32), ("A", .param "M"), ("M", .unary .array .unknown)]⟩
  args := [.unary .array .unknown]
  score := 2

-- The parameter of the interface has the name of the constructor, and so has a parameter that
-- the subject mentions.
def openImpl : Implementation where
  interface := wrapper [⟨"M", []⟩]
  generics := [⟨"T", []⟩]
  target := .unary .array (.param "T")
  args := [.param "T"]

def opened : Survivor where
  impl := openImpl
  substitution := ⟨[("T", .param "M"), ("Self", .unary .array (.param "M")),
    ("M", .unary .array .unknown)]⟩
  args := [.param "M"]
  score := 1

end Passing

theorem shared_names_misbind :
    (Passing.resolver Passing.sharedImpl).Misbinds (.unary .array .i32) "Into" [] ∧
      (Passing.resolver Passing.laterImpl).Misbinds .i32 "Pair" [] ∧
      (Passing.resolver Passing.namedImpl).Misbinds (.unary .array .i32) "Wrapper" [] ∧
      (Passing.resolver Passing.openImpl).Misbinds (.unary .array (.param "M")) "Wrapper" [] := by
  have hshared : (Passing.resolver Passing.sharedImpl).chosen?
      (Goal.lookup (.unary .array .i32) "Into" []) = some Passing.shared := by
    decide +kernel
  have hlater : (Passing.resolver Passing.laterImpl).chosen?
      (Goal.lookup .i32 "Pair" []) = some Passing.later := by
    decide +kernel
  have hnamed : (Passing.resolver Passing.namedImpl).chosen?
      (Goal.lookup (.unary .array .i32) "Wrapper" []) = some Passing.named := by
    decide +kernel
  have hopened : (Passing.resolver Passing.openImpl).chosen?
      (Goal.lookup (.unary .array (.param "M")) "Wrapper" []) = some Passing.opened := by
    decide +kernel
  -- The parameter that goes wrong is the first one each time.
  exact ⟨
    Resolver.misbinds_of_chosen? hshared (i := 0) rfl rfl (by decide +kernel) (by decide +kernel),
    Resolver.misbinds_of_chosen? hlater (i := 0) rfl rfl (by decide +kernel) (by decide +kernel),
    Resolver.misbinds_of_chosen? hnamed (i := 0) rfl rfl (by decide +kernel) (by decide +kernel),
    Resolver.misbinds_of_chosen? hopened (i := 0) rfl rfl (by decide +kernel) (by decide +kernel)⟩

end Conformance
