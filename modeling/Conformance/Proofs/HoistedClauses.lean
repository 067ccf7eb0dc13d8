import Conformance.Proofs.RegisteredBlocks
import Mathlib.Data.List.Perm.Basic

namespace Conformance

-- A block declares the names implicitly that it uses and nobody declares. A where-clause on such a
-- name is turned into bounds of it, so that it is checked among those of the parameters, under
-- another rule than the clauses that stay. What it demands is the same in both places.

theorem nodup_eraseDups {α : Type} [DecidableEq α] : (xs : List α) → xs.eraseDups.Nodup
  | [] => List.nodup_nil
  | x :: xs => by
      rw [List.eraseDups_cons, List.nodup_cons]
      refine ⟨fun hmem => ?_, nodup_eraseDups _⟩
      simpa using (List.mem_filter.mp (List.mem_eraseDups.mp hmem)).2
termination_by xs => xs.length
decreasing_by exact Nat.lt_succ_of_le (List.length_filter_le _ xs)

-- Elements sorted by distinct keys, and then those of other keys or none, are all elements.
theorem perm_by_key {α κ : Type} [DecidableEq κ] (key : α → Option κ) {keys : List κ}
    (hnodup : keys.Nodup) (xs : List α) :
    ((keys.flatMap fun k => xs.filter fun x => key x = some k) ++
      xs.filter fun x => !keys.any fun k => key x = some k).Perm xs := by
  induction keys generalizing xs with
  | nil => simp
  | cons first keys ih =>
      obtain ⟨hnew, hnodup⟩ := List.nodup_cons.mp hnodup
      let rest := xs.filter fun x => !decide (key x = some first)
      have hsorted : (keys.flatMap fun k => xs.filter fun x => key x = some k) =
          keys.flatMap fun k => rest.filter fun x => key x = some k := by
        refine List.flatMap_congr fun k hk => ?_
        rw [List.filter_filter]
        refine List.filter_congr fun x _ => ?_
        by_cases hx : key x = some k
        · have hne : k ≠ first := fun heq => hnew (heq ▸ hk)
          simp [hx, hne]
        · simp [hx]
      have hothers : (xs.filter fun x => !(first :: keys).any fun k => key x = some k) =
          rest.filter fun x => !keys.any fun k => key x = some k := by
        rw [List.filter_filter]
        refine List.filter_congr fun x _ => ?_
        rw [List.any_cons, Bool.not_or, Bool.and_comm]
      rw [List.flatMap_cons, hsorted, hothers, List.append_assoc]
      exact ((ih hnodup rest).append_left _).trans (List.filter_append_perm _ xs)

namespace Obligation

-- What is demanded of a subject, and the name it is reported under.
def demand (obligation : Obligation) : String × Ty × Ty :=
  (obligation.param, obligation.subject, obligation.constraint)

-- The obligations of one where-clause.
def ofClause (owner : String) (node : Option Span) (clause : WhereClause Ty) : List Obligation :=
  clause.bounds.map fun constraint =>
    { owner := owner, param := clause.param, constraint := constraint, subject := clause.subject,
      node := node }

end Obligation

-- The bounds of a parameter as a where-clause on it.
def TypeParam.clause (generic : TypeParam Ty) : WhereClause Ty :=
  ⟨generic.name, .param generic.name, generic.bounds⟩

theorem Obligation.ofClauses_eq (owner : String) (generics : List (TypeParam Ty))
    (wheres : List (WhereClause Ty)) (node : Option Span) :
    ofClauses owner generics wheres node =
      (generics.map TypeParam.clause ++ wheres).flatMap (ofClause owner node) := by
  rw [List.flatMap_append, List.flatMap_map]
  rfl

namespace Environment

variable {env : Environment} {declared : List (TypeParam TypeExpr)} {used : List String}
  {name : String}

theorem nodup_implicitNames : (env.implicitNames declared used).Nodup := nodup_eraseDups _

theorem mem_implicitNames :
    name ∈ env.implicitNames declared used ↔ name ∈ used ∧ name ∉ TypeParam.names declared ∧
      env.declaresType name = false ∧ isReservedName name = false := by
  simp [implicitNames, List.mem_eraseDups, List.mem_filter, and_assoc]

theorem names_inferGenerics (wheres : List WhereExpr) :
    TypeParam.names (env.inferGenerics declared wheres used).generics =
      TypeParam.names declared ++ env.implicitNames declared used := by
  simp [inferGenerics, TypeParam.names, Function.comp_def]

end Environment

namespace Scope

variable {scope : Scope} {name : String}

def resolveWhere (scope : Scope) (clause : WhereExpr) : WhereClause Ty :=
  ⟨clause.subject.render, scope.resolve clause.subject, clause.bounds.map scope.resolve⟩

def obligationsOf (scope : Scope) (owner : String) (node : Option Span) (clause : WhereExpr) :
    List Obligation :=
  Obligation.ofClause owner node (scope.resolveWhere clause)

-- On a parameter in scope, a where-clause says what bounds of the parameter say.
theorem resolveWhere_param (hscope : name ∈ scope.generics) (hname : isReservedName name = false)
    {clause : WhereExpr} (hclause : clause.subject.simpleName? = some name) :
    scope.resolveWhere clause = ⟨name, .param name, clause.bounds.map scope.resolve⟩ := by
  obtain ⟨subject, bounds⟩ := clause
  cases subject with
  | simple other span =>
      obtain rfl : other = name := Option.some.inj hclause
      simp only [isReservedName, Bool.or_eq_false_iff, decide_eq_false_iff_not] at hname
      obtain ⟨⟨⟨⟨⟨hempty, hwildcard⟩, hself⟩, -⟩, -⟩, -⟩ := hname
      simp [resolveWhere, TypeExpr.render, resolve, resolveName, appliedOrBare, hempty, hwildcard,
        hself, hscope]
  | _ => cases hclause

-- The bounds that come from several clauses on a parameter make the obligations of those clauses.
theorem ofClause_hoisted (owner : String) (node : Option Span) (hscope : name ∈ scope.generics)
    (hname : isReservedName name = false) {clauses : List WhereExpr}
    (hclauses : ∀ clause ∈ clauses, clause.subject.simpleName? = some name) :
    Obligation.ofClause owner node
        ⟨name, .param name, (clauses.flatMap WhereExpr.bounds).map scope.resolve⟩ =
      clauses.flatMap (scope.obligationsOf owner node) := by
  rw [Obligation.ofClause, List.map_flatMap, List.map_flatMap]
  refine List.flatMap_congr fun clause hclause => ?_
  rw [obligationsOf, resolveWhere_param hscope hname (hclauses clause hclause)]
  rfl

-- The obligations of declared parameters, of further ones and of clauses, one after the other.
theorem ofClauses_resolved (owner : String) (node : Option Span)
    (declared further : List (TypeParam TypeExpr)) (wheres : List WhereExpr) :
    Obligation.ofClauses owner (scope.resolveParams (declared ++ further))
        (scope.resolveWheres wheres) node =
      Obligation.ofClauses owner (scope.resolveParams declared) [] node ++
        ((further.flatMap fun generic => Obligation.ofClause owner node
            ⟨generic.name, .param generic.name, generic.bounds.map scope.resolve⟩) ++
          wheres.flatMap (scope.obligationsOf owner node)) := by
  have hfurther : ((scope.resolveParams further).map TypeParam.clause).flatMap
      (Obligation.ofClause owner node) = further.flatMap fun generic =>
        Obligation.ofClause owner node
          ⟨generic.name, .param generic.name, generic.bounds.map scope.resolve⟩ := by
    rw [resolveParams, List.map_map, List.flatMap_map]
    rfl
  have hwheres : (scope.resolveWheres wheres).flatMap (Obligation.ofClause owner node) =
      wheres.flatMap (scope.obligationsOf owner node) :=
    List.flatMap_map _ _ wheres
  rw [Obligation.ofClauses_eq, Obligation.ofClauses_eq, List.append_nil, ← hfurther, ← hwheres]
  simp only [resolveParams, List.map_append, List.flatMap_append, List.append_assoc]

-- Parameters without bounds demand nothing.
theorem ofClauses_unbounded (owner : String) (node : Option Span)
    (declared : List (TypeParam TypeExpr)) (names : List String) (wheres : List WhereExpr) :
    Obligation.ofClauses owner
        (scope.resolveParams (declared ++ names.map fun name => ⟨name, []⟩))
        (scope.resolveWheres wheres) node =
      Obligation.ofClauses owner (scope.resolveParams declared) [] node ++
        wheres.flatMap (scope.obligationsOf owner node) := by
  rw [ofClauses_resolved, List.flatMap_eq_nil_iff.mpr, List.nil_append]
  intro generic hgeneric
  obtain ⟨name, -, rfl⟩ := List.mem_map.mp hgeneric
  rfl

variable {declared : List (TypeParam TypeExpr)} {used : List String}

-- Where the parameters of a block are in scope, the hoisted clauses demand what they demand in
-- their places.
theorem ofClauses_hoisted (owner : String) (node : Option Span) (wheres : List WhereExpr)
    (hscope : ∀ name ∈ scope.env.implicitNames declared used, name ∈ scope.generics) :
    (Obligation.ofClauses owner
        (scope.resolveParams (scope.env.inferGenerics declared wheres used).generics)
        (scope.resolveWheres (scope.env.inferGenerics declared wheres used).wheres) node).Perm
      (Obligation.ofClauses owner
        (scope.resolveParams (declared ++
          (scope.env.implicitNames declared used).map fun name => ⟨name, []⟩))
        (scope.resolveWheres wheres) node) := by
  have hhoisted : ∀ name ∈ scope.env.implicitNames declared used,
      Obligation.ofClause owner node ⟨name, .param name,
          ((wheres.filter fun clause => clause.subject.simpleName? = some name).flatMap
            WhereExpr.bounds).map scope.resolve⟩ =
        (wheres.filter fun clause => clause.subject.simpleName? = some name).flatMap
          (scope.obligationsOf owner node) := by
    intro name hname
    obtain ⟨-, -, -, hfree⟩ := Environment.mem_implicitNames.mp hname
    refine ofClause_hoisted owner node (hscope name hname) hfree fun clause hclause => ?_
    simpa using (List.mem_filter.mp hclause).2
  rw [Environment.inferGenerics, ofClauses_resolved, ofClauses_unbounded, List.flatMap_map,
    List.flatMap_congr hhoisted, ← List.flatMap_assoc, ← List.flatMap_append]
  refine List.Perm.append_left _ (List.Perm.flatMap_right _ ?_)
  exact perm_by_key (fun clause => clause.subject.simpleName?)
    Environment.nodup_implicitNames wheres

end Scope

namespace ImplDef

-- What the bounds and where-clauses of a block demand as they are written, one by one.
def demands (block : ImplDef) (scope : Scope) : List (String × Ty × Ty) :=
  (block.generics.flatMap fun generic =>
      generic.bounds.map fun bound => (generic.name, .param generic.name, scope.resolve bound)) ++
    block.wheres.flatMap fun clause =>
      clause.bounds.map fun bound =>
        (clause.subject.render, scope.resolve clause.subject, scope.resolve bound)

theorem demands_eq (block : ImplDef) (scope : Scope) (owner : String) (node : Option Span)
    (names : List String) :
    block.demands scope = (Obligation.ofClauses owner
      (scope.resolveParams (block.generics ++ names.map fun name => ⟨name, []⟩))
      (scope.resolveWheres block.wheres) node).map Obligation.demand := by
  rw [Scope.ofClauses_unbounded]
  simp [demands, Obligation.ofClauses, Obligation.ofClause, Obligation.demand, Scope.resolveParams,
    Scope.obligationsOf, Scope.resolveWhere, List.map_flatMap, List.flatMap_map, Function.comp_def]

-- What is known of the implementation that a block stands for, in the scope of its generics.
theorem build_spec (block : ImplDef) (env : Environment) (interface : InterfaceDecl)
    (inferred : InferredGenerics) {impl : Implementation}
    (himpl : impl = block.build env interface inferred) {scope : Scope}
    (hscope : scope = ⟨env, TypeParam.names inferred.generics, impl.target⟩) :
    impl.generics = scope.resolveParams inferred.generics ∧
      impl.obligations = Obligation.ofClauses impl.ownerLabel
        (scope.resolveParams inferred.generics) (scope.resolveWheres inferred.wheres)
        impl.span := by
  subst himpl hscope
  exact ⟨rfl, rfl⟩

end ImplDef

-- The obligations of a block in use are one for each bound that is written in it, whether it stands
-- at a parameter or in a clause, and whether the clause is on an implicit parameter or not.
theorem hoisting_keeps_obligations {finder : ComponentFinder} {program : Program}
    {builtins : Bool} {block : ImplDef} {impl : Implementation} (hblock : block ∈ program.blocks)
    (hread : (block.elaborate (Collection.ofProgram finder program builtins).env).impl =
      some impl) :
    let env := (Collection.ofProgram finder program builtins).env
    let scope : Scope := ⟨env, block.genericNames env, impl.target⟩
    let implicit := env.implicitNames block.generics block.typeNames
    impl ∈ (Collection.ofProgram finder program builtins).registry.entries ∧
      impl.obligations.Perm (Obligation.ofClauses impl.ownerLabel
        (scope.resolveParams (block.generics ++ implicit.map fun name => ⟨name, []⟩))
        (scope.resolveWheres block.wheres) impl.span) ∧
      (impl.obligations.map Obligation.demand).Perm (block.demands scope) ∧
      TypeParam.names impl.generics = TypeParam.names block.generics ++ implicit ∧
      implicit.Nodup ∧ ∀ name ∈ implicit, name ∉ TypeParam.names block.generics := by
  intro env scope implicit
  have hused : impl ∈ (Collection.ofProgram finder program builtins).registry.entries := by
    rw [Collection.entries_ofProgram]
    exact List.mem_append_right _ (List.mem_filterMap.mpr ⟨block, hblock, hread⟩)
  have hnames : block.genericNames env = TypeParam.names block.generics ++ implicit :=
    Environment.names_inferGenerics block.wheres
  have hscope : ∀ name ∈ implicit, name ∈ scope.generics := by
    intro name hname
    show name ∈ block.genericNames env
    rw [hnames]
    exact List.mem_append_right _ hname
  obtain ⟨interface, -, himpl, -⟩ := ImplDef.elaborate_impl hread
  obtain ⟨hgenerics, hobligations⟩ :=
    block.build_spec env interface (block.inferred env) himpl (rfl : scope = _)
  have hperm : impl.obligations.Perm (Obligation.ofClauses impl.ownerLabel
      (scope.resolveParams (block.generics ++ implicit.map fun name => ⟨name, []⟩))
      (scope.resolveWheres block.wheres) impl.span) := by
    rw [hobligations]
    exact Scope.ofClauses_hoisted impl.ownerLabel impl.span block.wheres hscope
  refine ⟨hused, hperm, ?_, ?_, Environment.nodup_implicitNames, fun name hname =>
    (Environment.mem_implicitNames.mp hname).2.1⟩
  · rw [block.demands_eq scope impl.ownerLabel impl.span implicit]
    exact hperm.map Obligation.demand
  · rw [hgenerics, Item.names_resolveParams]
    exact hnames

namespace Hoisted

open Catalogue Wrapped

def display : Item := .interface ⟨"Display", [], none, [], [], default⟩

-- Two clauses on a parameter that is not declared, one on a type that holds it, and one on a
-- parameter that is declared.
def block : ImplDef where
  name := none
  interface := "Show"
  args := []
  generics := [⟨"K", [named "Display"]⟩]
  target := .generic (named "Wrapper") [named "T"] default
  wheres := [⟨named "T", [named "Display"]⟩, ⟨arrayOf "T", [named "Show"]⟩,
    ⟨named "K", [named "Hash"]⟩, ⟨named "T", [named "Hash"]⟩]
  methods := []
  span := default

def program : Program := [.impl block, showable, display, hash, wrapper]

-- A demand under the name of its subject.
def demanded (subject : Ty) (interface : String) : String × Ty × Ty :=
  (subject.render, subject, .declared .interface interface [])

def key : Ty := .param "K"

def element : Ty := .param "T"

def written : List (String × Ty × Ty) :=
  [demanded key "Display", demanded element "Display", demanded (.unary .array element) "Show",
    demanded key "Hash", demanded element "Hash"]

-- As a bound, the last clause comes before the second one.
def hoisted : List (String × Ty × Ty) :=
  [demanded key "Display", demanded element "Display", demanded element "Hash",
    demanded (.unary .array element) "Show", demanded key "Hash"]

end Hoisted

open Hoisted in
theorem hoisted_clause_moves :
    ∃ impl ∈ (Collection.ofProgram depthFirst program false).registry.entries,
      TypeParam.names impl.generics = ["K", "T"] ∧
      impl.obligations.map Obligation.demand = hoisted ∧ hoisted.Perm written := by
  let env := (Collection.ofProgram depthFirst program false).env
  have hblock : block ∈ Program.blocks program := by decide +kernel
  obtain ⟨impl, hread⟩ : ∃ impl, (block.elaborate env).impl = some impl :=
    Option.isSome_iff_exists.mp (by decide +kernel)
  obtain ⟨hused, -, hdemands, hnames, -⟩ := hoisting_keeps_obligations hblock hread
  have hhoisted : (block.elaborate env).impl.map
      (fun impl => impl.obligations.map Obligation.demand) = some hoisted := by
    decide +kernel
  have hwritten : (block.elaborate env).impl.map
      (fun impl => block.demands ⟨env, block.genericNames env, impl.target⟩) = some written := by
    decide +kernel
  rw [hread, Option.map_some, Option.some.injEq] at hhoisted hwritten
  rw [hhoisted, hwritten] at hdemands
  exact ⟨impl, hused, hnames.trans (by decide +kernel), hhoisted, hdemands⟩

end Conformance
