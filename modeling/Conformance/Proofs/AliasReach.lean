import Conformance.Proofs.AliasComponents

namespace Conformance

namespace AliasGraph

-- What following edges finds, and the components that come of it.

-- An alias leads to another along a way on which no alias after the first is avoided.
def LeadsPast (graph : AliasGraph) (avoided : List String) : String → String → Prop :=
  Relation.TransGen fun a b => graph.Mentions a b ∧ b ∉ avoided

variable {graph : AliasGraph}

theorem LeadsPast.leads {avoided : List String} {a b : String} (h : graph.LeadsPast avoided a b) :
    graph.Leads a b :=
  h.lift id fun _ _ hstep => hstep.1

section Follow

-- The edges of the aliases that are not found yet.
def edgesLeft (edges : List (String × List String)) (found : List String) : Nat :=
  ((edges.filter fun edge => !found.contains edge.1).flatMap Prod.snd).length

theorem edgesLeft_cons (edge : String × List String) (edges : List (String × List String))
    (found : List String) : edgesLeft (edge :: edges) found =
      (if edge.1 ∈ found then 0 else edge.2.length) + edgesLeft edges found := by
  by_cases h : edge.1 ∈ found <;> simp [edgesLeft, h]

theorem edgesLeft_nil : edgesLeft graph.edges [] = graph.edgeCount := by
  have hall : (graph.edges.filter fun edge => !([] : List String).contains edge.1) = graph.edges :=
    List.filter_eq_self.mpr (by simp)
  rw [edgesLeft, hall, edgeCount]

theorem edgesLeft_le (edges : List (String × List String)) (node : String) (found : List String) :
    edgesLeft edges (node :: found) ≤ edgesLeft edges found := by
  induction edges with
  | nil => simp [edgesLeft]
  | cons edge edges ih =>
      rw [edgesLeft_cons, edgesLeft_cons]
      by_cases hfound : edge.1 ∈ found
      · simpa [hfound] using ih
      · by_cases hnode : edge.1 = node
        · simp only [hnode, List.mem_cons, true_or, if_true]
          omega
        · simpa [hfound, hnode] using ih

-- An alias that is found takes its edges off those that are left.
theorem successors_edgesLeft {node : String} {found : List String} (h : node ∉ found) :
    (graph.successors node).length + edgesLeft graph.edges (node :: found) ≤
      edgesLeft graph.edges found := by
  obtain ⟨edges⟩ := graph
  induction edges with
  | nil => simp [successors, edgesLeft]
  | cons edge edges ih =>
      rw [edgesLeft_cons, edgesLeft_cons]
      by_cases hnode : edge.1 = node
      · have hleft := edgesLeft_le edges node found
        simp only [successors, List.find?_cons, hnode, decide_true, Option.map_some,
          Option.getD_some, List.mem_cons, true_or, if_true, h, if_false]
        omega
      · have hsuccessors : successors ⟨edge :: edges⟩ node = successors ⟨edges⟩ node := by
          simp [successors, hnode]
        have hrest : edge.1 ∈ node :: found ↔ edge.1 ∈ found := by simp [hnode]
        dsimp only at ih
        rw [hsuccessors]
        simp only [hrest]
        omega

theorem length_successors_le (node : String) :
    (graph.successors node).length ≤ graph.edgeCount := by
  have hleft := @successors_edgesLeft graph node [] List.not_mem_nil
  rw [edgesLeft_nil] at hleft
  omega

theorem follow_sound {avoided : List String} {start : String} {fuel : Nat}
    {pending found : List String}
    (hpending : ∀ a ∈ pending, a ∉ avoided → graph.LeadsPast avoided start a)
    (hfound : ∀ a ∈ found, graph.LeadsPast avoided start a) :
    ∀ a ∈ graph.follow avoided fuel pending found, graph.LeadsPast avoided start a := by
  fun_induction follow graph avoided fuel pending found with
  | case1 => exact hfound
  | case2 => exact hfound
  | case3 fuel node pending found hskip ih =>
      exact ih (fun a ha => hpending a (List.mem_cons_of_mem _ ha)) hfound
  | case4 fuel node pending found hnew ih =>
      have hnode : graph.LeadsPast avoided start node := by
        refine hpending node List.mem_cons_self ?_
        intro havoided
        simp [havoided] at hnew
      refine ih (fun a ha havoided => ?_) (List.forall_mem_cons.mpr ⟨hnode, hfound⟩)
      rcases List.mem_append.mp ha with ha | ha
      · exact hnode.tail ⟨ha, havoided⟩
      · exact hpending a (List.mem_cons_of_mem _ ha) havoided

-- Every step takes one alias off the pending ones, and those put on are paid for by the edges
-- that are left.
theorem follow_closed {avoided : List String} {fuel : Nat} {pending found : List String}
    (hfuel : pending.length + edgesLeft graph.edges found ≤ fuel)
    (hedges : ∀ a ∈ found, ∀ b, graph.Mentions a b → b ∉ avoided → b ∈ found ∨ b ∈ pending) :
    (∀ a, (a ∈ found ∨ a ∈ pending) → a ∉ avoided → a ∈ graph.follow avoided fuel pending found) ∧
      ∀ a ∈ graph.follow avoided fuel pending found, ∀ b, graph.Mentions a b → b ∉ avoided →
        b ∈ graph.follow avoided fuel pending found := by
  fun_induction follow graph avoided fuel pending found with
  | case1 fuel found =>
      refine ⟨fun a ha _ => by simpa using ha, fun a ha b hb havoided => ?_⟩
      simpa using hedges a ha b hb havoided
  | case2 pending found hpending =>
      have hnil : pending = [] := List.length_eq_zero_iff.mp (by omega)
      exact absurd hnil hpending
  | case3 fuel node pending found hskip ih =>
      have hnode : node ∈ found ∨ node ∈ avoided := by simpa using hskip
      have hfuel' : pending.length + edgesLeft graph.edges found ≤ fuel := by
        simp only [List.length_cons] at hfuel
        omega
      obtain ⟨hkept, hclosed⟩ := ih hfuel' fun a ha b hb havoided => by
        rcases hedges a ha b hb havoided with hfound | hpending
        · exact .inl hfound
        · rcases List.mem_cons.mp hpending with rfl | hpending
          · exact .inl (hnode.resolve_right havoided)
          · exact .inr hpending
      refine ⟨fun a ha havoided => hkept a ?_ havoided, hclosed⟩
      rcases ha with hfound | hpending
      · exact .inl hfound
      · rcases List.mem_cons.mp hpending with rfl | hpending
        · exact .inl (hnode.resolve_right havoided)
        · exact .inr hpending
  | case4 fuel node pending found hnew ih =>
      have hnode : node ∉ found ∧ node ∉ avoided := by simpa using hnew
      have hleft := @successors_edgesLeft graph node found hnode.1
      have hfuel' : (graph.successors node ++ pending).length +
          edgesLeft graph.edges (node :: found) ≤ fuel := by
        simp only [List.length_cons, List.length_append] at hfuel ⊢
        omega
      obtain ⟨hkept, hclosed⟩ := ih hfuel' fun a ha b hb havoided => by
        rcases List.mem_cons.mp ha with rfl | ha
        · exact .inr (List.mem_append_left _ hb)
        · rcases hedges a ha b hb havoided with hfound | hpending
          · exact .inl (List.mem_cons_of_mem _ hfound)
          · rcases List.mem_cons.mp hpending with rfl | hpending
            · exact .inl List.mem_cons_self
            · exact .inr (List.mem_append_right _ hpending)
      refine ⟨fun a ha havoided => hkept a ?_ havoided, hclosed⟩
      rcases ha with hfound | hpending
      · exact .inl (List.mem_cons_of_mem _ hfound)
      · rcases List.mem_cons.mp hpending with rfl | hpending
        · exact .inl List.mem_cons_self
        · exact .inr (List.mem_append_right _ hpending)

theorem follow_nodup {avoided : List String} {fuel : Nat} {pending found : List String}
    (h : found.Nodup) : (graph.follow avoided fuel pending found).Nodup := by
  fun_induction follow graph avoided fuel pending found with
  | case1 => exact h
  | case2 => exact h
  | case3 fuel node pending found hskip ih => exact ih h
  | case4 fuel node pending found hnew ih =>
      have hnode : node ∉ found ∧ node ∉ avoided := by simpa using hnew
      exact ih (List.nodup_cons.mpr ⟨hnode.1, h⟩)

theorem mem_reachable_iff {avoided : List String} {a b : String} :
    b ∈ graph.reachable avoided a ↔ graph.LeadsPast avoided a b := by
  have hfuel : (graph.successors a).length + edgesLeft graph.edges [] ≤ 2 * graph.edgeCount := by
    have hlength := @length_successors_le graph a
    rw [edgesLeft_nil]
    omega
  obtain ⟨hkept, hclosed⟩ := @follow_closed graph avoided _ _ [] hfuel (by simp)
  constructor
  · refine follow_sound (fun c hc havoided => ?_) (by simp) b
    exact .single ⟨hc, havoided⟩
  · intro h
    induction h with
    | single hstep => exact hkept _ (.inr hstep.1) hstep.2
    | tail _ hstep ih => exact hclosed _ ih _ hstep.1 hstep.2

end Follow

section Reversed

theorem nodes_reversed : graph.reversed.nodes = graph.nodes := by
  simp [reversed, nodes, Function.comp_def]

theorem mentions_reversed (hgraph : graph.Closed) {a b : String} :
    graph.reversed.Mentions a b ↔ graph.Mentions b a := by
  have hreversed : graph.reversed.nodes.Nodup := by
    rw [nodes_reversed]
    exact hgraph.nodup
  rw [mentions_iff hreversed, mentions_iff hgraph.nodup]
  constructor
  · rintro ⟨targets, hmem, hb⟩
    obtain ⟨node, -, heq⟩ := List.mem_map.mp hmem
    obtain ⟨rfl, rfl⟩ := Prod.mk.inj heq
    obtain ⟨edge, hedge, rfl⟩ := List.mem_map.mp hb
    obtain ⟨hmem, hcontains⟩ := List.mem_filter.mp hedge
    exact ⟨edge.2, hmem, by simpa using hcontains⟩
  · rintro ⟨targets, hmem, ha⟩
    have hnode : a ∈ graph.nodes :=
      hgraph.mem_nodes ((mentions_iff hgraph.nodup).mpr ⟨targets, hmem, ha⟩)
    refine ⟨_, List.mem_map.mpr ⟨a, hnode, rfl⟩, ?_⟩
    exact List.mem_map.mpr ⟨(b, targets), List.mem_filter.mpr ⟨hmem, by simpa using ha⟩, rfl⟩

theorem leads_reversed (hgraph : graph.Closed) {a b : String} :
    graph.reversed.Leads a b ↔ graph.Leads b a := by
  have hmentions : graph.reversed.Mentions = Function.swap graph.Mentions := by
    funext x y
    exact propext (mentions_reversed hgraph)
  rw [Leads, hmentions]
  exact Relation.transGen_swap

end Reversed

section Components

-- Way and way back stay among aliases that lead to each other, and so past all that is avoided
-- if nothing of those is.
theorem Mutual.leadsPast {avoided : List String} {a b : String} (h : graph.Mutual a b)
    (havoided : ∀ c, graph.Mutual a c → c ∉ avoided) : graph.LeadsPast avoided a b := by
  obtain ⟨hthere, hback⟩ := h
  induction hthere with
  | single hstep => exact .single ⟨hstep, havoided _ ⟨.single hstep, hback⟩⟩
  | tail hway hstep ih =>
      have hpast := ih (.head hstep hback)
      exact hpast.tail ⟨hstep, havoided _ ⟨hway.tail hstep, hback⟩⟩

theorem mutual_reversed (hgraph : graph.Closed) {a b : String} :
    graph.reversed.Mutual a b ↔ graph.Mutual a b := by
  rw [Mutual, Mutual, leads_reversed hgraph, leads_reversed hgraph, and_comm]

-- What is taken is taken with all that leads there and back.
def Whole (graph : AliasGraph) (taken : List String) : Prop :=
  ∀ a ∈ taken, ∀ b, graph.Mutual a b → b ∈ taken

theorem Whole.past {taken : List String} (h : graph.Whole taken) {node : String}
    (hnode : node ∉ taken) : ∀ other, graph.Mutual node other → other ∉ taken := by
  intro other hmutual htaken
  exact hnode (h other htaken node ⟨hmutual.2, hmutual.1⟩)

theorem mem_component_iff (hgraph : graph.Closed) {taken : List String} (hwhole : graph.Whole taken)
    {node : String} (hnode : node ∉ taken) {other : String} :
    other ∈ graph.component graph.reversed taken node ↔ other = node ∨ graph.Mutual node other := by
  have hpast := hwhole.past hnode
  have hbefore (hmutual : graph.Mutual node other) :
      other ∈ graph.reversed.reachable taken node := by
    rw [mem_reachable_iff]
    exact ((mutual_reversed hgraph).mpr hmutual).leadsPast fun c hc =>
      hpast c ((mutual_reversed hgraph).mp hc)
  have hafter (hmutual : graph.Mutual node other) : other ∈ graph.reachable taken node :=
    mem_reachable_iff.mpr (hmutual.leadsPast hpast)
  rw [component]
  split
  · rename_i hempty
    rw [List.mem_singleton]
    refine ⟨.inl, fun h => h.resolve_right fun hmutual => ?_⟩
    have hmem := hbefore hmutual
    rw [List.isEmpty_iff.mp hempty] at hmem
    cases hmem
  · simp only [List.mem_cons, List.mem_filter, Bool.and_eq_true, decide_eq_true_eq,
      List.contains_iff_mem]
    constructor
    · rintro (rfl | ⟨hleads, -, hfollows⟩)
      · exact .inl rfl
      · rw [mem_reachable_iff] at hleads hfollows
        exact .inr ⟨hfollows.leads, (leads_reversed hgraph).mp hleads.leads⟩
    · rintro (rfl | hmutual)
      · exact .inl rfl
      · by_cases heq : other = node
        · exact .inl heq
        · exact .inr ⟨hbefore hmutual, heq, hafter hmutual⟩

theorem nodup_component {back : AliasGraph} (taken : List String) (node : String) :
    (graph.component back taken node).Nodup := by
  rw [component]
  split
  · exact List.nodup_singleton node
  · refine List.nodup_cons.mpr ⟨by simp, List.Nodup.filter _ (follow_nodup List.nodup_nil)⟩

theorem isComponent_component (hgraph : graph.Closed) {taken : List String}
    (hwhole : graph.Whole taken) {node : String} (hnode : node ∉ taken) :
    graph.IsComponent (graph.component graph.reversed taken node) node :=
  ⟨nodup_component taken node, fun _ => mem_component_iff hgraph hwhole hnode⟩

theorem Whole.append {taken members : List String} (h : graph.Whole taken) {node : String}
    (hmembers : graph.IsComponent members node) : graph.Whole (members ++ taken) := by
  intro a ha b hmutual
  rcases List.mem_append.mp ha with ha | ha
  · refine List.mem_append_left _ ((hmembers.mem_iff b).mpr ?_)
    rcases (hmembers.mem_iff a).mp ha with rfl | hnode
    · exact .inr hmutual
    · exact .inr ⟨hnode.1.trans hmutual.1, hmutual.2.trans hnode.2⟩
  · exact List.mem_append_right _ (h a ha b hmutual)

-- The components along an order are those of its aliases, apart from what is taken already.
structure Partition (graph : AliasGraph) (order taken : List String) (comps : List (List String)) :
    Prop where
  components : ∀ members ∈ comps, ∃ node ∈ order, node ∉ taken ∧ graph.IsComponent members node
  disjoint : comps.Pairwise List.Disjoint
  untaken : ∀ members ∈ comps, members.Disjoint taken
  covers : ∀ node ∈ order, node ∈ taken ∨ ∃ members ∈ comps, node ∈ members
  whole : graph.Whole (comps.reverse.flatten ++ taken)

theorem componentsAlong_partition (hgraph : graph.Closed) (order : List String)
    {taken : List String} (hwhole : graph.Whole taken) :
    graph.Partition order taken (graph.componentsAlong graph.reversed order taken) := by
  induction order generalizing taken with
  | nil => exact ⟨by simp [componentsAlong], by simp [componentsAlong], by simp [componentsAlong],
      by simp, by simpa [componentsAlong] using hwhole⟩
  | cons node order ih =>
      rw [componentsAlong]
      split
      · rename_i htaken
        have hnode : node ∈ taken := by simpa using htaken
        obtain ⟨hcomponents, hdisjoint, huntaken, hcovers, hrest⟩ := ih hwhole
        refine ⟨fun members hmembers => ?_, hdisjoint, huntaken, ?_, hrest⟩
        · obtain ⟨other, hother, hfacts⟩ := hcomponents members hmembers
          exact ⟨other, List.mem_cons_of_mem _ hother, hfacts⟩
        · exact List.forall_mem_cons.mpr ⟨.inl hnode, hcovers⟩
      · rename_i htaken
        have hnode : node ∉ taken := by simpa using htaken
        have hcomponent := isComponent_component hgraph hwhole hnode
        dsimp only
        generalize graph.component graph.reversed taken node = members at hcomponent ⊢
        have hself : node ∈ members := (hcomponent.mem_iff node).mpr (.inl rfl)
        obtain ⟨hcomponents, hdisjoint, huntaken, hcovers, hrest⟩ := ih (hwhole.append hcomponent)
        have hapart : ∀ others ∈ graph.componentsAlong graph.reversed order (members ++ taken),
            others.Disjoint members ∧ others.Disjoint taken := by
          intro others hothers
          exact List.disjoint_append_right.mp (huntaken others hothers)
        refine ⟨?_, ?_, ?_, ?_, ?_⟩
        · refine List.forall_mem_cons.mpr ⟨⟨node, List.mem_cons_self, hnode, hcomponent⟩, ?_⟩
          intro others hothers
          obtain ⟨other, hother, hfresh, hfacts⟩ := hcomponents others hothers
          exact ⟨other, List.mem_cons_of_mem _ hother,
            fun h => hfresh (List.mem_append_right _ h), hfacts⟩
        · exact List.pairwise_cons.mpr
            ⟨fun others h => List.disjoint_symm (hapart others h).1, hdisjoint⟩
        · refine List.forall_mem_cons.mpr ⟨fun other hother hbefore => ?_, fun others h =>
            (hapart others h).2⟩
          rcases (hcomponent.mem_iff other).mp hother with rfl | hmutual
          · exact hnode hbefore
          · exact hwhole.past hnode other hmutual hbefore
        · refine List.forall_mem_cons.mpr ⟨.inr ⟨members, List.mem_cons_self, hself⟩, ?_⟩
          intro other hother
          rcases hcovers other hother with hmem | ⟨others, hothers, hmem⟩
          · rcases List.mem_append.mp hmem with hmem | hmem
            · exact .inr ⟨members, List.mem_cons_self, hmem⟩
            · exact .inl hmem
          · exact .inr ⟨others, List.mem_cons_of_mem _ hothers, hmem⟩
        · simpa using hrest

-- A component stands where the order first comes to a member of it.
theorem componentsAlong_split {order taken : List String} {before after : List (List String)}
    {members : List String}
    (h : graph.componentsAlong graph.reversed order taken = before ++ members :: after) :
    ∃ first node second, order = first ++ node :: second ∧
      graph.componentsAlong graph.reversed first taken = before ∧
      node ∉ before.reverse.flatten ++ taken ∧
      members = graph.component graph.reversed (before.reverse.flatten ++ taken) node := by
  induction order generalizing taken before with
  | nil => simp [componentsAlong] at h
  | cons head order ih =>
      rw [componentsAlong] at h
      split at h
      · rename_i htaken
        obtain ⟨first, node, second, rfl, hbefore, hfacts⟩ := ih h
        refine ⟨head :: first, node, second, rfl, ?_, hfacts⟩
        rwa [componentsAlong, if_pos htaken]
      · rename_i hnew
        cases before with
        | nil =>
            obtain ⟨rfl, -⟩ := List.cons.inj h
            exact ⟨[], head, order, rfl, rfl, by simpa using hnew, rfl⟩
        | cons others before =>
            obtain ⟨rfl, hrest⟩ := List.cons.inj h
            obtain ⟨first, node, second, rfl, hbefore, hnode, hmembers⟩ := ih hrest
            refine ⟨head :: first, node, second, rfl, ?_, ?_, ?_⟩
            · rw [componentsAlong, if_neg hnew]
              exact congrArg _ hbefore
            · simpa using hnode
            · simpa using hmembers

end Components

end AliasGraph

end Conformance
