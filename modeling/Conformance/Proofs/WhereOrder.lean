import Conformance.Proofs.RegistryOrder
import Mathlib.Data.List.Forall2

namespace Conformance

-- The order in which an implementation lists its obligations decides which of them a rejection
-- names, and nothing else. Two resolvers are followed side by side whose implementations
-- differ in that order and whose rejections may be worded in any way.

section Pairs

variable {α β : Type} {R : α → β → Prop}

theorem exists_pairs {xs : List α} {ys : List β} (h : List.Forall₂ R xs ys) :
    ∃ pairs : List { pair : α × β // R pair.1 pair.2 },
      pairs.map (fun pair => pair.val.1) = xs ∧ pairs.map (fun pair => pair.val.2) = ys := by
  induction h with
  | nil => exact ⟨[], rfl, rfl⟩
  | @cons x y xs ys hxy _ ih =>
      obtain ⟨pairs, rfl, rfl⟩ := ih
      exact ⟨⟨(x, y), hxy⟩ :: pairs, rfl, rfl⟩

-- Two choices that name related candidates.
inductive Choice.Rel (R : α → β → Prop) : Choice α → Choice β → Prop
  | winner {a : α} {b : β} : R a b → Rel R (.winner a) (.winner b)
  | tied {as : List α} {bs : List β} : List.Forall₂ R as bs → Rel R (.tied as) (.tied bs)

-- Candidates that are related one by one are chosen alike if the relation respects the
-- comparison and the names: both choices are one choice among the pairs.
theorem select_rel {cmp : α → α → Ordering} {cmp' : β → β → Ordering} {name : α → String}
    {name' : β → String}
    (hcmp : ∀ a a' b b', R a a' → R b b' → cmp a b = cmp' a' b')
    (hname : ∀ a a', R a a' → name a = name' a') {xs : List α} {ys : List β}
    (h : List.Forall₂ R xs ys) :
    Option.Rel (Choice.Rel R) (select cmp name xs) (select cmp' name' ys) := by
  obtain ⟨pairs, rfl, rfl⟩ := exists_pairs h
  have hpairs : (fun a b : { pair : α × β // R pair.1 pair.2 } => cmp a.val.1 b.val.1) =
      fun a b => cmp' a.val.2 b.val.2 := by
    funext a b
    exact hcmp _ _ _ _ a.property b.property
  have hnames : (fun a : { pair : α × β // R pair.1 pair.2 } => name a.val.1) =
      fun a => name' a.val.2 := by
    funext a
    exact hname _ _ a.property
  rw [select_map, select_map, hpairs, hnames]
  generalize select _ _ pairs = choice
  rcases choice with _ | pair | tied
  · exact .none
  · exact .some (.winner pair.property)
  · refine .some (.tied ?_)
    rw [List.forall₂_map_left_iff, List.forall₂_map_right_iff, List.forall₂_same]
    exact fun pair _ => pair.property

end Pairs

-- The same implementation, with its obligations in some order.
def Implementation.Rearranged (a b : Implementation) : Prop :=
  ∃ obligations, a.obligations.Perm obligations ∧ b = { a with obligations := obligations }

theorem Implementation.Rearranged.refl (a : Implementation) : a.Rearranged a :=
  ⟨a.obligations, .refl _, rfl⟩

-- The same survivor, of an implementation with its obligations in some order.
def Survivor.Alike (a b : Survivor) : Prop :=
  ∃ impl, a.impl.Rearranged impl ∧ b = { a with impl := impl }

namespace Survivor.Alike

variable {a a' b b' : Survivor}

-- The keys of the obligations are compared as sets.
theorem compare_eq (preferUser : Bool) (ha : a.Alike a') (hb : b.Alike b') :
    a.compare preferUser b = a'.compare preferUser b' := by
  obtain ⟨_, ⟨obligations, hperm, rfl⟩, rfl⟩ := ha
  obtain ⟨_, ⟨obligations', hperm', rfl⟩, rfl⟩ := hb
  have hkeys : a.impl.constraintKeys =
      ({ a.impl with obligations := obligations } : Implementation).constraintKeys :=
    labelSet_perm (hperm.map _)
  have hkeys' : b.impl.constraintKeys =
      ({ b.impl with obligations := obligations' } : Implementation).constraintKeys :=
    labelSet_perm (hperm'.map _)
  unfold Survivor.compare
  rw [hkeys, hkeys']
  rfl

theorem name_eq (h : a.Alike b) : a.impl.interfaceName = b.impl.interfaceName := by
  obtain ⟨_, ⟨_, _, rfl⟩, rfl⟩ := h
  rfl

theorem label_eq (h : a.Alike b) (subject : Ty) : a.label subject = b.label subject := by
  obtain ⟨_, ⟨_, _, rfl⟩, rfl⟩ := h
  rfl

theorem resolution_eq (h : a.Alike b) (goal : Goal) : a.resolution goal = b.resolution goal := by
  obtain ⟨_, ⟨_, _, rfl⟩, rfl⟩ := h
  rfl

end Survivor.Alike

-- Two assessments with the same result. A rejection may name any reason.
inductive Assessment.Alike : Assessment → Assessment → Prop
  | mismatch : Alike .mismatch .mismatch
  | rejected (detail detail' : String) : Alike (.rejected detail) (.rejected detail')
  | survives {a b : Survivor} : a.Alike b → Alike (.survives a) (.survives b)

theorem Assessment.Alike.survivor? {a b : Assessment} (h : a.Alike b) :
    Option.Rel Survivor.Alike a.survivor? b.survivor? := by
  cases h with
  | mismatch => exact .none
  | rejected _ _ => exact .none
  | survives h => exact .some h

theorem forall₂_survivors {assessments assessments' : List Assessment}
    (h : List.Forall₂ Assessment.Alike assessments assessments') :
    List.Forall₂ Survivor.Alike (assessments.filterMap Assessment.survivor?)
      (assessments'.filterMap Assessment.survivor?) :=
  List.rel_filterMap (fun _ _ halike => halike.survivor?) h

theorem map_label_eq {survivors survivors' : List Survivor}
    (h : List.Forall₂ Survivor.Alike survivors survivors') (subject : Ty) :
    survivors.map (fun survivor => survivor.label subject) =
      survivors'.map fun survivor => survivor.label subject := by
  induction h with
  | nil => rfl
  | cons halike _ ih => rw [List.map_cons, List.map_cons, halike.label_eq, ih]

namespace Resolver

-- A goal is refused in two places for any reasons, or opened in both with candidates that are
-- assessed alike.
inductive AlikeExplored :
    Except GoalFault (List Assessment) → Except GoalFault (List Assessment) → Prop
  | refused (fault fault' : GoalFault) : AlikeExplored (.error fault) (.error fault')
  | opened {assessments assessments' : List Assessment} :
      List.Forall₂ Assessment.Alike assessments assessments' →
      AlikeExplored (.ok assessments) (.ok assessments')

theorem AlikeExplored.cases {explored explored' : Except GoalFault (List Assessment)}
    (h : AlikeExplored explored explored') :
    (∃ fault fault', explored = .error fault ∧ explored' = .error fault') ∨
      ∃ assessments assessments', explored = .ok assessments ∧ explored' = .ok assessments' ∧
        List.Forall₂ Assessment.Alike assessments assessments' := by
  cases h with
  | refused fault fault' => exact .inl ⟨fault, fault', rfl, rfl⟩
  | opened hassessments => exact .inr ⟨_, _, rfl, rfl, hassessments⟩

theorem outcome_rel (goal : Goal) (detail detail' : String)
    {choice choice' : Option (Choice Survivor)}
    (h : Option.Rel (Choice.Rel Survivor.Alike) choice choice') :
    (outcome goal detail choice).Agrees (outcome goal detail' choice') := by
  cases h with
  | none => exact ⟨rfl, rfl⟩
  | some hrel =>
      cases hrel with
      | winner halike => exact halike.resolution_eq goal
      | tied halike =>
          rw [outcome, outcome, map_label_eq halike]
          exact rfl

def AlikeFit (a b : Survivor × Match) : Prop := a.1.Alike b.1 ∧ a.2 = b.2

theorem matchOfChoice_rel {choice choice' : Option (Choice (Survivor × Match))}
    (h : Option.Rel (Choice.Rel AlikeFit) choice choice') :
    matchOfChoice choice = matchOfChoice choice' := by
  cases h with
  | none => rfl
  | some hrel =>
      cases hrel with
      | winner halike => exact congrArg some halike.2
      | tied _ => rfl

-- Which obligation fails first depends on their order, and whether one fails does not.
theorem firstFailure?_perm {r r' : Resolver} {below below' : Option Explorer}
    {goals goals' : List Goal} {obligations obligations' : List Obligation}
    (hperm : obligations.Perm obligations')
    (hholds : ∀ obligation ∈ obligations,
      (r.Holds below goals obligation ↔ r'.Holds below' goals' obligation)) :
    r.firstFailure? below goals obligations = none ↔
      r'.firstFailure? below' goals' obligations' = none := by
  rw [firstFailure?_eq_none_iff, firstFailure?_eq_none_iff]
  constructor
  · intro hall obligation hmem
    have hmem := hperm.mem_iff.mpr hmem
    exact (hholds obligation hmem).mp (hall obligation hmem)
  · intro hall obligation hmem
    exact (hholds obligation hmem).mpr (hall obligation (hperm.mem_iff.mp hmem))

-- Two resolvers that look at the same implementations, up to the order of obligations, and
-- compare them in the same way. Their limits may differ.
structure Akin (r r' : Resolver) : Prop where
  env : r.env = r'.env
  preferUser : r.options.preferUser = r'.options.preferUser
  entries : List.Forall₂ Implementation.Rearranged r.registry.entries r'.registry.entries

section Akin

variable {r r' : Resolver} (h : r.Akin r')

include h

theorem Akin.candidates (interfaces : List String) :
    List.Forall₂ Implementation.Rearranged (r.registry.candidates interfaces)
      (r'.registry.candidates interfaces) := by
  refine List.rel_filter ?_ h.entries
  rintro impl _ ⟨obligations, _, rfl⟩
  exact Iff.rfl

theorem Akin.compare_eq {a a' b b' : Survivor} (ha : a.Alike a') (hb : b.Alike b') :
    r.compare a b = r'.compare a' b' := by
  rw [compare, compare, h.preferUser]
  exact ha.compare_eq _ hb

theorem Akin.select {survivors survivors' : List Survivor}
    (hsurvivors : List.Forall₂ Survivor.Alike survivors survivors') :
    Option.Rel (Choice.Rel Survivor.Alike) (r.select survivors) (r'.select survivors') := by
  apply select_rel _ _ hsurvivors
  · intro a a' b b' ha hb
    exact h.compare_eq ha hb
  · intro a a' ha
    exact ha.name_eq

theorem Akin.conclude (goal : Goal) {assessments assessments' : List Assessment}
    (hassessments : List.Forall₂ Assessment.Alike assessments assessments') :
    (r.conclude goal assessments).Agrees (r'.conclude goal assessments') := by
  rw [conclude_eq, conclude_eq]
  exact outcome_rel goal _ _ (h.select (forall₂_survivors hassessments))

theorem Akin.bestFit (targetArgs : List Ty) (generics : List (TypeParam Ty))
    {assessments assessments' : List Assessment}
    (hassessments : List.Forall₂ Assessment.Alike assessments assessments') :
    r.bestFit targetArgs generics assessments = r'.bestFit targetArgs generics assessments' := by
  have hfits : List.Forall₂ AlikeFit
      ((assessments.filterMap Assessment.survivor?).filterMap (fit? targetArgs generics))
      ((assessments'.filterMap Assessment.survivor?).filterMap (fit? targetArgs generics)) := by
    refine List.rel_filterMap ?_ (forall₂_survivors hassessments)
    rintro survivor _ ⟨impl, himpl, rfl⟩
    simp only [fit?]
    cases Ty.matchArgs survivor.args targetArgs generics with
    | none => exact .none
    | some found => exact .some ⟨⟨impl, himpl, rfl⟩, rfl⟩
  apply matchOfChoice_rel
  apply select_rel _ _ hfits
  · intro a a' b b' ha hb
    exact h.compare_eq ha.1 hb.1
  · intro a a' ha
    exact ha.1.name_eq

section Nested

variable {below below' : Option Explorer} {goals goals' : List Goal}

-- A lookup that is explored alike has outcomes that agree.
theorem Akin.resolveIn {subject : Ty} {interface : String} {args : List Ty}
    (hexplored : AlikeExplored (r.explore below goals (Goal.lookup subject interface args))
      (r'.explore below' goals' (Goal.lookup subject interface args))) :
    (r.resolveIn below goals subject interface args).Agrees
      (r'.resolveIn below' goals' subject interface args) := by
  obtain ⟨fault, fault', hleft, hright⟩ | ⟨_, _, hleft, hright, hassessments⟩ := hexplored.cases
  · simp only [Resolver.resolveIn, hleft, hright]
    exact ⟨rfl, rfl⟩
  · simp only [Resolver.resolveIn, hleft, hright]
    exact h.conclude _ hassessments

theorem Akin.matchInterface {subject : Ty} {interface : String} (targetArgs : List Ty)
    (generics : List (TypeParam Ty))
    (hexplored : AlikeExplored (r.explore below goals (Goal.target subject interface))
      (r'.explore below' goals' (Goal.target subject interface))) :
    r.matchInterface below goals subject interface targetArgs generics =
      r'.matchInterface below' goals' subject interface targetArgs generics := by
  rw [matchInterface_eq, matchInterface_eq]
  obtain ⟨fault, fault', hleft, hright⟩ | ⟨_, _, hleft, hright, hassessments⟩ := hexplored.cases
  · rw [hleft, hright]
  · rw [hleft, hright]
    exact h.bestFit targetArgs generics hassessments

theorem Akin.matchTargetIn {subject target : Ty} (generics : List (TypeParam Ty))
    (hexplored : ∀ interface targetArgs, target.asInterface? = some (interface, targetArgs) →
      AlikeExplored (r.explore below goals (Goal.target subject interface))
        (r'.explore below' goals' (Goal.target subject interface))) :
    r.matchTargetIn below goals subject target generics =
      r'.matchTargetIn below' goals' subject target generics := by
  unfold Resolver.matchTargetIn
  cases htarget : target.asInterface? with
  | none => rfl
  | some pair =>
      have hinterface := h.matchInterface pair.2 generics (hexplored pair.1 pair.2 htarget)
      simp only [hinterface]

theorem Akin.holds {obligation : Obligation}
    (hexplored : ∀ interface, r.env.checkedInterface obligation.constraint = .ok interface →
      ∀ part ∈ obligation.subject.parts,
        AlikeExplored
          (r.explore below goals (Goal.lookup part interface.name interface.args))
          (r'.explore below' goals' (Goal.lookup part interface.name interface.args))) :
    r.Holds below goals obligation ↔ r'.Holds below' goals' obligation := by
  have hsame : ∀ interface, r.env.checkedInterface obligation.constraint = .ok interface →
      (r.implementsIn below goals obligation.subject interface.name interface.args).isResolved =
        (r'.implementsIn below' goals' obligation.subject interface.name
          interface.args).isResolved :=
    fun interface hinterface => implementsBy_isResolved_congr obligation.subject
      fun part hpart => (h.resolveIn (hexplored interface hinterface part hpart)).isResolved_eq
  unfold Holds
  rw [← h.env]
  constructor
  · rintro ⟨interface, hinterface, hcases⟩
    exact ⟨interface, hinterface, hsame interface hinterface ▸ hcases⟩
  · rintro ⟨interface, hinterface, hcases⟩
    exact ⟨interface, hinterface, (hsame interface hinterface).symm ▸ hcases⟩

-- A candidate is assessed alike if all that it asks for is explored alike: the interface that
-- is its target, and the parts of the subjects of its obligations.
theorem Akin.assess {goal goal' : Goal} (hsubject : goal.subject = goal'.subject)
    (hargs : goal.args = goal'.args) {impl impl' : Implementation} (himpl : impl.Rearranged impl')
    (hblanket : ∀ interface targetArgs, impl.target.asInterface? = some (interface, targetArgs) →
      AlikeExplored (r.explore below goals (Goal.target goal.subject interface))
        (r'.explore below' goals' (Goal.target goal.subject interface)))
    (hobligation : ∀ found,
      r.matchTargetIn below goals goal.subject impl.target impl.generics = some found →
      ∀ obligation ∈ impl.obligations, ∀ interface,
        r.env.checkedInterface (obligation.substitute
          (Substitution.complete found.substitution r.env impl goal.subject)).constraint =
            .ok interface →
        ∀ part ∈ (obligation.substitute
          (Substitution.complete found.substitution r.env impl goal.subject)).subject.parts,
          AlikeExplored
            (r.explore below goals (Goal.lookup part interface.name interface.args))
            (r'.explore below' goals' (Goal.lookup part interface.name interface.args))) :
    (r.assess below goals goal impl).Alike (r'.assess below' goals' goal' impl') := by
  obtain ⟨obligations, hperm, rfl⟩ := himpl
  have hmatch := h.matchTargetIn impl.generics hblanket
  rw [Resolver.assess, Resolver.assess, ← hsubject, ← hmatch, ← h.env, ← hargs]
  cases hfound : r.matchTargetIn below goals goal.subject impl.target impl.generics with
  | none => exact .mismatch
  | some found =>
      have hasked := hobligation found hfound
      -- Nothing that is found out about a candidate depends on its obligations.
      have hcomplete : Substitution.complete found.substitution r.env
          { impl with obligations := obligations } goal.subject =
          Substitution.complete found.substitution r.env impl goal.subject := rfl
      dsimp only
      rw [hcomplete]
      generalize Substitution.complete found.substitution r.env impl goal.subject = s at hasked ⊢
      cases argsCompatible (impl.args.map (Ty.substitute · s)) goal.args with
      | false => exact .rejected _ _
      | true =>
          have hfailure := firstFailure?_perm (hperm.map (Obligation.substitute · s)) (by
            intro obligation hmem
            obtain ⟨written, hwritten, rfl⟩ := List.mem_map.mp hmem
            exact h.holds (hasked written hwritten))
          simp only [Bool.not_true, Bool.false_eq_true, if_false]
          cases hleft : r.firstFailure? below goals
              (impl.obligations.map (Obligation.substitute · s)) with
          | none =>
              rw [hfailure.mp hleft]
              exact .survives ⟨_, ⟨obligations, hperm, rfl⟩, rfl⟩
          | some failure =>
              cases hright : r'.firstFailure? below' goals'
                  (obligations.map (Obligation.substitute · s)) with
              | none => simp [hfailure.mpr hright] at hleft
              | some failure' => exact .rejected _ _

end Nested

end Akin

end Resolver

-- A rejection in other words.
def Assessment.reword (wording : String → String) : Assessment → Assessment
  | .rejected detail => .rejected (wording detail)
  | assessment => assessment

theorem Assessment.Alike.reword {a b : Assessment} (h : a.Alike b) (wording : String → String) :
    a.Alike (b.reword wording) := by
  cases h with
  | mismatch => exact .mismatch
  | rejected detail detail' => exact .rejected detail (wording detail')
  | survives h => exact .survives h

namespace Resolver

-- Explores like the resolver, and words every rejection anew, at all levels of the run.
def rewordedExplorer (r : Resolver) (wording : Goal → Implementation → String → String) :
    Nat → Option Explorer
  | 0 => none
  | room + 1 => some fun goal goals =>
      (r.registry.candidates (servingInterfaces goal.interface)).map fun impl =>
        (r.assess (r.rewordedExplorer wording room) (goal :: goals) goal impl).reword
          (wording goal impl)

def resolveReworded (r : Resolver) (wording : Goal → Implementation → String → String)
    (subject : Ty) (interface : String) (args : List Ty) : Outcome :=
  r.resolveIn (r.rewordedExplorer wording r.options.maxDepth) [] subject interface args

theorem rewordedExplorer_id (r : Resolver) (room : Nat) :
    r.rewordedExplorer (fun _ _ detail => detail) room = r.explorer room := by
  induction room with
  | zero => rfl
  | succ room ih =>
      have hid : ∀ assessment : Assessment,
          assessment.reword (fun detail => detail) = assessment := by
        intro assessment
        cases assessment <;> rfl
      simp only [rewordedExplorer, explorer, ih, hid]

theorem explore_none (r : Resolver) (goals : List Goal) (goal : Goal) :
    ∃ fault, r.explore none goals goal = .error fault := by
  unfold explore
  split
  · exact ⟨_, rfl⟩
  · exact ⟨_, rfl⟩

-- Goals around which two resolvers differ only in the outermost ones are explored alike, as
-- long as no goal asked for on the way is among the outermost goals on one side only. The
-- induction is on the levels left, which the goals nested in a goal have one less of.
theorem Akin.explore {r r' : Resolver} (h : r.Akin r')
    (wording : Goal → Implementation → String → String) {origin : Goal} {outer outer' : List Goal}
    (hway : ∀ room goals goal, r.Asks origin (room + 1) (goals ++ outer) goal →
      (outer.any fun opened => opened.key = goal.key) =
        outer'.any fun opened => opened.key = goal.key)
    {room : Nat} {inner : List Goal} {goal : Goal}
    (hasks : r.Asks origin room (inner ++ outer) goal) :
    AlikeExplored (r.explore (r.explorer room) (inner ++ outer) goal)
      (r'.explore (r'.rewordedExplorer wording room) (inner ++ outer') goal) := by
  induction room generalizing inner goal with
  | zero =>
      obtain ⟨fault, hleft⟩ := r.explore_none (inner ++ outer) goal
      obtain ⟨fault', hright⟩ := r'.explore_none (inner ++ outer') goal
      rw [explorer, rewordedExplorer, hleft, hright]
      exact .refused fault fault'
  | succ room ih =>
      have hopen : ((inner ++ outer).any fun opened => opened.key = goal.key) =
          (inner ++ outer').any fun opened => opened.key = goal.key := by
        rw [List.any_append, List.any_append, hway room inner goal hasks]
      unfold Resolver.explore
      rw [← hopen]
      cases hcyclic : (inner ++ outer).any fun opened => opened.key = goal.key with
      | true => exact .refused _ _
      | false =>
          have hnested : ∀ asked, r.Asks origin room ((goal :: inner) ++ outer) asked →
              AlikeExplored (r.explore (r.explorer room) ((goal :: inner) ++ outer) asked)
                (r'.explore (r'.rewordedExplorer wording room) ((goal :: inner) ++ outer')
                  asked) :=
            fun asked hasked => ih hasked
          have hrefuses : refuses (room + 1) (inner ++ outer) goal = false := by
            simp [refuses, hcyclic]
          have hcandidates := (List.forall₂_and_left _ _).mpr
            ⟨fun _ himpl => himpl, h.candidates (servingInterfaces goal.interface)⟩
          refine .opened ?_
          rw [List.forall₂_map_left_iff, List.forall₂_map_right_iff]
          refine hcandidates.imp fun impl impl' himpls => ?_
          obtain ⟨himpl, hrearranged⟩ := himpls
          refine (h.assess rfl rfl hrearranged ?_ ?_).reword _
          · intro interface targetArgs htarget
            exact hnested _ (.blanket hasks hrefuses himpl htarget)
          · intro found hfound obligation hobligation interface hinterface part hpart
            exact hnested _ (.obligation hasks hrefuses himpl hfound hobligation hinterface hpart)

end Resolver

-- The order of the obligations inside implementations is irrelevant to every lookup: it finds
-- the same implementation, or ties between the same ones, or nothing. The same holds if every
-- rejection on the way is worded anew, so that no decision hangs on the words of a rejection.
theorem resolve_obligation_order_irrelevant (r : Resolver) (entries : List Implementation)
    (hentries : List.Forall₂ Implementation.Rearranged r.registry.entries entries) (subject : Ty)
    (interface : String) (args : List Ty) :
    (r.resolve subject interface args).Agrees
        ((r.reorder entries).resolve subject interface args) ∧
      ∀ wording, (r.resolve subject interface args).Agrees
        ((r.reorder entries).resolveReworded wording subject interface args) := by
  have hakin : r.Akin (r.reorder entries) := ⟨rfl, rfl, hentries⟩
  have hreworded : ∀ wording, (r.resolve subject interface args).Agrees
      ((r.reorder entries).resolveReworded wording subject interface args) := by
    intro wording
    have hasks : r.Asks (Goal.lookup subject interface args) r.options.maxDepth ([] ++ [])
        (Goal.lookup subject interface args) := .origin
    exact hakin.resolveIn (hakin.explore wording (fun _ _ _ _ => rfl) hasks)
  have hplain := hreworded fun _ _ detail => detail
  rw [Resolver.resolveReworded, Resolver.rewordedExplorer_id] at hplain
  exact ⟨hplain, hreworded⟩

namespace Swap

-- An array is shown if its members can be displayed and cloned.

def bits : Ty := .unary .array .bool

def letters : Ty := .unary .array (.scalar (.primitive .char))

def arrayImpl : Implementation :=
  Circle.bounded "T" ["Display", "Clone"] (.unary .array (.param "T"))

def memberImpls : List Implementation :=
  ["Display", "Clone"].map fun name =>
    { interface := { name := name }, target := .bool }

def resolver : Resolver where
  env := (Circle.resolver []).env
  registry := ⟨memberImpls ++ [arrayImpl]⟩

def swapped : List Implementation :=
  memberImpls ++ [{ arrayImpl with obligations := arrayImpl.obligations.reverse }]

theorem forall₂_swapped :
    List.Forall₂ Implementation.Rearranged resolver.registry.entries swapped :=
  .cons (.refl _) (.cons (.refl _)
    (.cons ⟨_, (List.reverse_perm arrayImpl.obligations).symm, rfl⟩ .nil))

end Swap

-- With the obligations swapped an array of letters is refused for another reason, and an array
-- of bits is found all the same.
theorem swapped_obligations_agree :
    List.Forall₂ Implementation.Rearranged Swap.resolver.registry.entries Swap.swapped ∧
      Swap.resolver.resolve Swap.letters "Show" [] ≠
        (Swap.resolver.reorder Swap.swapped).resolve Swap.letters "Show" [] ∧
      (Swap.resolver.resolve Swap.letters "Show" []).Agrees
        ((Swap.resolver.reorder Swap.swapped).resolve Swap.letters "Show" []) ∧
      (Swap.resolver.resolve Swap.bits "Show" []).isResolved = true ∧
      ∀ wording, (Swap.resolver.resolve Swap.bits "Show" []).Agrees
        ((Swap.resolver.reorder Swap.swapped).resolveReworded wording Swap.bits "Show" []) := by
  refine ⟨Swap.forall₂_swapped, by decide +kernel, ?_, by decide +kernel, ?_⟩
  · exact (resolve_obligation_order_irrelevant Swap.resolver Swap.swapped
      Swap.forall₂_swapped Swap.letters "Show" []).1
  · exact (resolve_obligation_order_irrelevant Swap.resolver Swap.swapped
      Swap.forall₂_swapped Swap.bits "Show" []).2

end Conformance
