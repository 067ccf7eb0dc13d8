import Conformance.Proofs.ReadingPhases

namespace Conformance

mutual
-- A name that a target is written with is looked up unless it means something else there.
theorem TypeExpr.mem_consulted {generics : List String} {name : String}
    (hlooked : isLookedUp generics name = true) :
    (e : TypeExpr) → name ∈ e.typeNames → name ∈ e.consulted generics
  | .wildcard _, h => by cases h
  | .simple other _, h => by
      obtain rfl := List.mem_singleton.mp h
      simp [consulted, hlooked]
  | .generic base args _, h => by
      rcases List.mem_append.mp h with hbase | hargs
      · exact List.mem_append_left _ (mem_consulted hlooked base hbase)
      · exact List.mem_append_right _ (mem_allConsulted hlooked args hargs)
  | .nullable inner _, h => mem_consulted hlooked inner h
  | .result inner _, h => List.mem_append_left _ (mem_consulted hlooked inner h)
  | .function params returns _, h => by
      rcases List.mem_append.mp h with hparams | hreturns
      · exact List.mem_append_left _ (mem_allConsulted hlooked params hparams)
      · exact List.mem_append_right _ (mem_consulted hlooked returns hreturns)
  | .union members _, h => mem_allConsulted hlooked members h
theorem TypeExpr.mem_allConsulted {generics : List String} {name : String}
    (hlooked : isLookedUp generics name = true) :
    (es : List TypeExpr) → name ∈ allTypeNames es → name ∈ allConsulted generics es
  | [], h => by cases h
  | e :: es, h => by
      rcases List.mem_append.mp h with hfirst | hrest
      · exact List.mem_append_left _ (mem_consulted hlooked e hfirst)
      · exact List.mem_append_right _ (mem_allConsulted hlooked es hrest)
end

-- One alias looks another up to find the meaning of its target.
def RefersTo (aliases : List AliasDef) (a b : String) : Prop :=
  ∃ item ∈ aliases, item.name = a ∧ b ∈ item.target.consulted (TypeParam.names item.generics) ∧
    b ∈ aliases.map AliasDef.name

-- On a circle of aliases what is written is what is looked up: no name on it means something
-- else where it is written, and the type of errors is written where a result asks for it.
structure FaithfulCircles (aliases : List AliasDef) : Prop where
  names : ∀ item ∈ aliases, ∀ name ∈ item.target.typeNames,
    (AliasGraph.ofDefs aliases).Leads name item.name →
    isLookedUp (TypeParam.names item.generics) name = true
  errors : ∀ item ∈ aliases, "Error" ∈ item.target.consulted (TypeParam.names item.generics) →
    Relation.TransGen (RefersTo aliases) "Error" item.name → "Error" ∈ item.target.typeNames

-- A circle of one relation is one of another if the steps on circles are.
theorem transGen_of_circle {α : Type} {R S : α → α → Prop}
    (hstep : ∀ a b, R a b → Relation.TransGen R b a → S a b) {a b : α}
    (hthere : Relation.TransGen R a b) (hback : Relation.TransGen R b a) :
    Relation.TransGen S a b := by
  induction hthere with
  | single h => exact .single (hstep _ _ h hback)
  | tail hthere h ih => exact (ih (hback.head h)).tail (hstep _ _ h (hback.trans hthere))

section Circles

variable {aliases : List AliasDef} (hnodup : (aliases.map AliasDef.name).Nodup)

include hnodup

theorem FaithfulCircles.leads_iff (h : FaithfulCircles aliases) {name : String} :
    (AliasGraph.ofDefs aliases).Leads name name ↔
      Relation.TransGen (RefersTo aliases) name name := by
  constructor
  · intro hleads
    refine transGen_of_circle (fun a b hmentions hback => ?_) hleads hleads
    obtain ⟨item, hitem, rfl, hwritten, halias⟩ := (AliasGraph.mentions_ofDefs hnodup).mp hmentions
    have hlooked := h.names item hitem b hwritten hback
    exact ⟨item, hitem, rfl, TypeExpr.mem_consulted hlooked item.target hwritten, halias⟩
  · intro hrefers
    refine transGen_of_circle (fun a b hstep hback => ?_) hrefers hrefers
    obtain ⟨item, hitem, rfl, hconsulted, halias⟩ := hstep
    refine (AliasGraph.mentions_ofDefs hnodup).mpr ⟨item, hitem, rfl, ?_, halias⟩
    rcases item.target.mem_typeNames_of_consulted hconsulted with hwritten | rfl
    · exact hwritten
    · exact h.errors item hitem hconsulted hback

-- All circles are faithful if none of the aliases is the type of errors and none has a name
-- that means something else in the target of one.
theorem faithfulCircles_of_targets (herror : "Error" ∉ aliases.map AliasDef.name)
    (hnames : ∀ item ∈ aliases, ∀ name ∈ item.target.typeNames, name ∈ aliases.map AliasDef.name →
      isLookedUp (TypeParam.names item.generics) name = true) : FaithfulCircles aliases where
  names := by
    intro item hitem name hwritten hleads
    refine hnames item hitem name hwritten ?_
    obtain ⟨next, hmentions, -⟩ := Relation.TransGen.head'_iff.mp hleads
    obtain ⟨other, hother, rfl, -⟩ := (AliasGraph.mentions_ofDefs hnodup).mp hmentions
    exact List.mem_map_of_mem hother
  errors := by
    intro item _ _ hback
    obtain ⟨next, ⟨other, hother, hname, -⟩, -⟩ := Relation.TransGen.head'_iff.mp hback
    exact absurd (hname ▸ List.mem_map_of_mem hother) herror

end Circles

-- Whether a diagnostic is about aliases that lead back to themselves.
def Diagnostic.isCycle (d : Diagnostic) : Bool :=
  match d.problem with
  | .aliasCycle _ => true
  | _ => false

theorem Diagnostic.problem_of_isCycle {d : Diagnostic} (h : d.isCycle = true) :
    ∃ names, d.problem = .aliasCycle names := by
  rw [isCycle] at h
  split at h
  · exact ⟨_, ‹_›⟩
  · cases h

namespace Collection

variable {finder : ComponentFinder} {program : Program} {aliases : List AliasDef} {name : String}

-- What is reported of a component, if it leads back to itself.
def cycleReport? (aliases : List AliasDef) (graph : AliasGraph) (members : List String) :
    Option Diagnostic :=
  (aliases.find? fun item => members.contains item.name).bind fun item =>
    if graph.isCyclic members then some ⟨.aliasCycle (cycleNames members), some item.span⟩ else none

theorem diagnostics_foldl_readComponent (graph : AliasGraph) (comps : List (List String))
    (c : Collection) :
    (comps.foldl (readComponent aliases graph) c).diagnostics =
      c.diagnostics ++ comps.filterMap (cycleReport? aliases graph) := by
  induction comps generalizing c with
  | nil => simp
  | cons members comps ih =>
      have hstep : (readComponent aliases graph c members).diagnostics =
          c.diagnostics ++ (cycleReport? aliases graph members).toList := by
        rw [readComponent, cycleReport?]
        cases aliases.find? fun item => members.contains item.name with
        | none => exact (List.append_nil _).symm
        | some item =>
            cases graph.isCyclic members <;> simp [define, report]
      rw [List.foldl_cons, ih, hstep, List.append_assoc]
      cases hreport : cycleReport? aliases graph members <;> simp [hreport]

def cycleReports (finder : ComponentFinder) (aliases : List AliasDef) : List Diagnostic :=
  let graph := AliasGraph.ofDefs aliases
  (finder.components graph).filterMap (cycleReport? aliases graph)

-- Until the types are read, nothing else is reported.
theorem diagnostics_typed (hdistinct : program.Distinct) :
    (typed finder program).diagnostics = cycleReports finder program.aliases := by
  have haliased : (aliased finder program).diagnostics = cycleReports finder program.aliases := by
    rw [aliased, readAliases, diagnostics_foldl_readComponent, diagnostics_declareShells hdistinct
      fun _ _ => rfl]
    rfl
  refine List.foldlRecOn (motive := fun c : Collection =>
    c.diagnostics = cycleReports finder program.aliases) _ _ haliased ?_
  intro c hc item _
  cases item <;> exact hc

theorem isCycle_of_mem_cycleReports {d : Diagnostic} (h : d ∈ cycleReports finder aliases) :
    d.isCycle = true := by
  obtain ⟨members, -, hreport⟩ := List.mem_filterMap.mp h
  obtain ⟨item, -, hreport⟩ := Option.bind_eq_some_iff.mp hreport
  split at hreport
  · obtain rfl := Option.some.inj hreport
    rfl
  · cases hreport

-- Cycles are reported while the aliases are read, and at no other time.
theorem filter_diagnostics_called (hdistinct : program.Distinct) :
    (called finder program).diagnostics.filter Diagnostic.isCycle =
      cycleReports finder program.aliases := by
  refine List.foldlRecOn (motive := fun c : Collection =>
    c.diagnostics.filter Diagnostic.isCycle = cycleReports finder program.aliases) _ _ ?_ ?_
  · rw [diagnostics_typed hdistinct]
    exact List.filter_eq_self.mpr fun d hd => isCycle_of_mem_cycleReports hd
  · intro c hc item _
    rw [readFunction]
    split
    · exact hc
    · rw [report, List.filter_append, hc]
      exact List.append_nil _

theorem filter_diagnostics_ofProgram (finder : ComponentFinder) (program : Program)
    (builtins : Bool) :
    (ofProgram finder program builtins).diagnostics.filter Diagnostic.isCycle =
      cycleReports finder (accepted program).aliases := by
  have hclashes : (clashes program).filter Diagnostic.isCycle = [] := by
    refine List.filter_eq_nil_iff.mpr fun d hd => ?_
    obtain ⟨name, hname⟩ := mem_clashes hd
    simp [Diagnostic.isCycle, hname]
  have hkind (d : Diagnostic) (hd : d.isCycle = true) :
      d.problem.isOfBlock = false ∧ d.problem.isOfMethod = false := by
    obtain ⟨names, hproblem⟩ := d.problem_of_isCycle hd
    rw [hproblem]
    exact ⟨rfl, rfl⟩
  rw [filter_diagnostics hkind, hclashes, filter_diagnostics_called (distinct_accepted program),
    List.nil_append]

-- An alias is among those that are reported to lead back to themselves.
def ReportsCycle (c : Collection) (name : String) : Prop :=
  ∃ d ∈ c.diagnostics, ∃ names, d.problem = .aliasCycle names ∧ name ∈ names

theorem mem_cycleNames {members : List String} : name ∈ cycleNames members ↔ name ∈ members := by
  rw [cycleNames, List.mem_append]
  constructor
  · rintro (hmem | hmem)
    · exact (mem_labelSet _ _).mp hmem
    · exact (mem_labelSet _ _).mp (List.mem_of_mem_take hmem)
  · exact fun hmem => .inl ((mem_labelSet _ _).mpr hmem)

-- The aliases that are reported are those that lead back to themselves as they are written.
theorem reportsCycle_iff (builtins : Bool) :
    (ofProgram finder program builtins).ReportsCycle name ↔
      (AliasGraph.ofDefs (accepted program).aliases).Leads name name := by
  have hnodup := Program.nodup_aliases (distinct_accepted program)
  have hgraph := AliasGraph.closed_ofDefs hnodup
  have hcomponents := finder.condensation hgraph
  have hfilter := filter_diagnostics_ofProgram finder program builtins
  constructor
  · rintro ⟨d, hd, names, hproblem, hname⟩
    have hreport : d ∈ cycleReports finder (accepted program).aliases := by
      rw [← hfilter]
      exact List.mem_filter.mpr ⟨hd, by simp [Diagnostic.isCycle, hproblem]⟩
    obtain ⟨members, hmembers, hreport⟩ := List.mem_filterMap.mp hreport
    obtain ⟨item, -, hreport⟩ := Option.bind_eq_some_iff.mp hreport
    split at hreport
    · rename_i hcyclic
      obtain rfl := Option.some.inj hreport
      obtain rfl := Problem.aliasCycle.inj hproblem
      exact (hcomponents.isCyclic_iff hmembers (mem_cycleNames.mp hname)).mp hcyclic
    · cases hreport
  · intro hleads
    have hnode := AliasGraph.Leads.mem_nodes hgraph hleads
    obtain ⟨members, hmembers, hname⟩ := hcomponents.covers name hnode
    have hcyclic := (hcomponents.isCyclic_iff hmembers hname).mpr hleads
    rw [AliasGraph.nodes_ofDefs] at hnode
    obtain ⟨item, hitem, rfl⟩ := List.mem_map.mp hnode
    obtain ⟨first, hfirst⟩ := Option.isSome_iff_exists.mp (List.find?_isSome.mpr
      ⟨item, hitem, List.contains_iff_mem.mpr hname⟩ :
        ((accepted program).aliases.find? fun other => members.contains other.name).isSome)
    have hreport : ⟨.aliasCycle (cycleNames members), some first.span⟩ ∈
        cycleReports finder (accepted program).aliases :=
      List.mem_filterMap.mpr ⟨members, hmembers, by rw [cycleReport?, hfirst]; simp [hcyclic]⟩
    rw [← hfilter] at hreport
    exact ⟨_, (List.mem_filter.mp hreport).1, _, rfl, mem_cycleNames.mpr hname⟩

-- An alias that leads back to itself keeps its shell.
theorem unknown_of_leads (builtins : Bool)
    (hleads : (AliasGraph.ofDefs (accepted program).aliases).Leads name name) :
    ∃ decl, (ofProgram finder program builtins).env.lookup? name = some (.alias decl) ∧
      decl.target = .unknown := by
  have hdistinct := distinct_accepted program
  have hnodup := Program.nodup_aliases hdistinct
  have hnode := AliasGraph.Leads.mem_nodes (AliasGraph.closed_ofDefs hnodup) hleads
  rw [AliasGraph.nodes_ofDefs] at hnode
  obtain ⟨item, hitem, rfl⟩ := List.mem_map.mp hnode
  obtain ⟨found, hfound, halias⟩ := List.mem_filterMap.mp hitem
  obtain rfl := Item.eq_alias_of_alias? halias
  have hshell : (aliased finder (accepted program)).env.lookup? item.name =
      some (.alias item.shell) := by
    rw [aliased, lookup?_readAliases_unread hnodup _ (.inr hleads), (shells_spec hdistinct).2.2,
      (Program.typeItem?_eq_some_iff hdistinct).mpr ⟨hfound, rfl⟩]
    rfl
  refine ⟨item.shell, ?_, rfl⟩
  rw [env_ofProgram]
  exact lookup?_called_of_aliased hdistinct hshell

end Collection

namespace Grove

open Catalogue

-- A parameter of one alias with the name of another.
def shadowed : Program :=
  [.alias ⟨"Box", [⟨"T", []⟩], arrayOf "T", [], default⟩,
    aliasOf "T" (.generic (named "Box") [named "i32"] default)]

-- Errors that are results themselves.
def failing : Program := [aliasOf "Error" (.result (named "i32") default)]

def program : Program :=
  [aliasOf "Tree" (arrayOf "Branch"), aliasOf "Branch" (.nullable (named "Tree") default),
    .alias ⟨"Forest", [⟨"T", []⟩], .generic (named "Map") [named "T", named "Tree"] default, [],
      default⟩]

end Grove

-- An alias is reported for a name that is its own parameter, and one that looks itself up as
-- the type of errors is not.
theorem reported_cycles_differ :
    ((Collection.ofProgram depthFirst Grove.shadowed false).ReportsCycle "Box" ∧
        ¬ Relation.TransGen (RefersTo (Collection.accepted Grove.shadowed).aliases) "Box" "Box") ∧
      (¬ (Collection.ofProgram depthFirst Grove.failing false).ReportsCycle "Error" ∧
        Relation.TransGen (RefersTo (Collection.accepted Grove.failing).aliases)
          "Error" "Error") := by
  refine ⟨⟨?_, fun hcircle => ?_⟩, fun ⟨d, hd, _⟩ => ?_, .single ?_⟩
  · exact ⟨⟨.aliasCycle ["Box", "T", "Box"], some default⟩, by decide +kernel, _, rfl, by decide⟩
  · have hnone : ∀ item ∈ (Collection.accepted Grove.shadowed).aliases, item.name = "Box" →
        item.target.consulted (TypeParam.names item.generics) = [] := by
      decide +kernel
    obtain ⟨next, ⟨item, hitem, hname, hconsulted, -⟩, -⟩ := Relation.TransGen.head'_iff.mp hcircle
    rw [hnone item hitem hname] at hconsulted
    cases hconsulted
  · have hnone : (Collection.ofProgram depthFirst Grove.failing false).diagnostics = [] := by
      decide +kernel
    rw [hnone] at hd
    cases hd
  · rw [RefersTo]
    decide +kernel

-- The aliases that are reported to lead back to themselves are those that do, and they stay
-- unknown.
theorem cycle_reported_iff_circle {finder : ComponentFinder} {program : Program} (builtins : Bool)
    (hfaithful : FaithfulCircles (Collection.accepted program).aliases) (name : String) :
    ((Collection.ofProgram finder program builtins).ReportsCycle name ↔
        Relation.TransGen (RefersTo (Collection.accepted program).aliases) name name) ∧
      (Relation.TransGen (RefersTo (Collection.accepted program).aliases) name name →
        ∃ decl,
          (Collection.ofProgram finder program builtins).env.lookup? name = some (.alias decl) ∧
          decl.target = .unknown) := by
  have hnodup := Program.nodup_aliases (Collection.distinct_accepted program)
  rw [Collection.reportsCycle_iff, hfaithful.leads_iff hnodup]
  exact ⟨.rfl, fun hcircle =>
    Collection.unknown_of_leads builtins ((hfaithful.leads_iff hnodup).mpr hcircle)⟩

theorem tree_reported_forest_read :
    ((Collection.ofProgram depthFirst Grove.program true).ReportsCycle "Tree" ∧
        ∃ decl,
          (Collection.ofProgram depthFirst Grove.program true).env.lookup? "Tree" =
            some (.alias decl) ∧ decl.target = .unknown) ∧
      ¬ (Collection.ofProgram depthFirst Grove.program true).ReportsCycle "Forest" := by
  have hfaithful : FaithfulCircles (Collection.accepted Grove.program).aliases :=
    faithfulCircles_of_targets (Program.nodup_aliases (Collection.distinct_accepted _))
      (by decide +kernel) (by decide +kernel)
  have hthere : RefersTo (Collection.accepted Grove.program).aliases "Tree" "Branch" := by
    rw [RefersTo]
    decide +kernel
  have hback : RefersTo (Collection.accepted Grove.program).aliases "Branch" "Tree" := by
    rw [RefersTo]
    decide +kernel
  obtain ⟨hreported, hunknown⟩ := cycle_reported_iff_circle true hfaithful "Tree"
  refine ⟨⟨hreported.mpr ?_, hunknown ?_⟩, fun hforest => ?_⟩
  · exact .tail (.single hthere) hback
  · exact .tail (.single hthere) hback
  · -- No alias refers to the forest.
    have hnone : ∀ item ∈ (Collection.accepted Grove.program).aliases,
        "Forest" ∉ item.target.consulted (TypeParam.names item.generics) := by
      decide +kernel
    have hcircle := (cycle_reported_iff_circle true hfaithful "Forest").1.mp hforest
    obtain ⟨before, -, item, hitem, -, hconsulted, -⟩ := Relation.TransGen.tail'_iff.mp hcircle
    exact hnone item hitem hconsulted

end Conformance
