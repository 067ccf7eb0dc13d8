import Conformance.AliasGraph
import Mathlib.Data.List.Nodup
import Mathlib.Logic.Relation

namespace Conformance

namespace AliasGraph

-- The components of a graph of aliases, by what is known of them and not by how they are found.

variable (graph : AliasGraph)

def Mentions (a b : String) : Prop := b ∈ graph.successors a

-- An alias leads to another in one or more steps.
def Leads : String → String → Prop := Relation.TransGen graph.Mentions

-- Two aliases that lead to each other.
def Mutual (a b : String) : Prop := graph.Leads a b ∧ graph.Leads b a

-- Every alias stands once in the graph, and all that are mentioned do.
structure Closed : Prop where
  nodup : graph.nodes.Nodup
  mem_nodes : ∀ {a b : String}, graph.Mentions a b → b ∈ graph.nodes

variable {graph}

theorem Leads.mem_nodes (hgraph : graph.Closed) {a b : String} (h : graph.Leads a b) :
    b ∈ graph.nodes := by
  cases h with
  | single hstep => exact hgraph.mem_nodes hstep
  | tail _ hstep => exact hgraph.mem_nodes hstep

theorem successors_eq_of_mem (hnodes : graph.nodes.Nodup) {edge : String × List String}
    (h : edge ∈ graph.edges) : graph.successors edge.1 = edge.2 := by
  have hnodup : graph.edges.Pairwise fun a b => a.1 ≠ b.1 := List.pairwise_map.mp hnodes
  have hfind : graph.edges.find? (fun other => other.1 = edge.1) = some edge := by
    generalize graph.edges = edges at h hnodup
    induction edges with
    | nil => cases h
    | cons first rest ih =>
        obtain ⟨hfirst, hrest⟩ := List.pairwise_cons.mp hnodup
        rcases List.mem_cons.mp h with rfl | hmem
        · simp
        · have hne : first.1 ≠ edge.1 := hfirst edge hmem
          simpa [hne] using ih hmem hrest
  simp [successors, hfind]

theorem mentions_iff (hnodes : graph.nodes.Nodup) {a b : String} :
    graph.Mentions a b ↔ ∃ targets, (a, targets) ∈ graph.edges ∧ b ∈ targets := by
  constructor
  · intro h
    rw [Mentions, successors] at h
    cases hfind : graph.edges.find? (fun edge => edge.1 = a) with
    | none => simp [hfind] at h
    | some edge =>
        have hmem := List.mem_of_find?_eq_some hfind
        have hname : edge.1 = a := by simpa using List.find?_some hfind
        exact ⟨edge.2, by rwa [← hname], by simpa [hfind] using h⟩
  · rintro ⟨targets, hmem, hb⟩
    rw [Mentions, successors_eq_of_mem hnodes hmem]
    exact hb

-- The component of an alias holds it and all that it leads to and that lead back, each once.
structure IsComponent (graph : AliasGraph) (members : List String) (node : String) : Prop where
  nodup : members.Nodup
  mem_iff : ∀ other, other ∈ members ↔ other = node ∨ graph.Mutual node other

namespace IsComponent

variable {members : List String} {node : String}

theorem eq_singleton (h : graph.IsComponent members node) (hacyclic : ¬ graph.Leads node node) :
    members = [node] := by
  refine List.perm_singleton.mp ((List.perm_ext_iff_of_nodup h.nodup (List.nodup_singleton _)).mpr
    fun other => ?_)
  rw [h.mem_iff, List.mem_singleton, or_iff_left]
  exact fun hmutual => hacyclic (hmutual.1.trans hmutual.2)

theorem isCyclic_iff (h : graph.IsComponent members node) :
    graph.isCyclic members = true ↔ graph.Leads node node := by
  constructor
  · intro hcyclic
    by_contra hacyclic
    rw [h.eq_singleton hacyclic] at hcyclic
    have hloop : graph.Mentions node node := by
      simpa [isCyclic, Mentions] using hcyclic
    exact hacyclic (.single hloop)
  · intro hleads
    rw [isCyclic, Bool.or_eq_true, decide_eq_true_eq, List.any_eq_true]
    obtain ⟨next, hstep, hback⟩ := Relation.TransGen.head'_iff.mp hleads
    have hself : node ∈ members := (h.mem_iff node).mpr (.inl rfl)
    by_cases hnext : next = node
    · refine .inr ⟨node, hself, ?_⟩
      rw [hnext, Mentions] at hstep
      simpa using hstep
    · have hreturn : graph.Leads next node :=
        (Relation.reflTransGen_iff_eq_or_transGen.mp hback).resolve_left (Ne.symm hnext)
      have hother : next ∈ members := (h.mem_iff next).mpr (.inr ⟨.single hstep, hreturn⟩)
      left
      by_contra hshort
      obtain ⟨only, rfl⟩ : ∃ only, members = [only] := by
        have hpositive := List.length_pos_of_mem hself
        exact List.length_eq_one_iff.mp (by omega)
      exact hnext ((List.mem_singleton.mp hother).trans (List.mem_singleton.mp hself).symm)

end IsComponent

-- All components, each once, and those of what an alias mentions not after its own.
structure Condensation (graph : AliasGraph) (comps : List (List String)) : Prop where
  isComponent : ∀ members ∈ comps, ∃ node ∈ graph.nodes, graph.IsComponent members node
  disjoint : comps.Pairwise List.Disjoint
  covers : ∀ node ∈ graph.nodes, ∃ members ∈ comps, node ∈ members
  sorted : ∀ {front members rest}, comps = front ++ members :: rest →
    ∀ a ∈ members, ∀ b, graph.Mentions a b → b ∈ front.flatten ∨ b ∈ members

namespace Condensation

variable {comps front rest : List (List String)} {members : List String} {a b : String}

theorem mem_nodes (h : graph.Condensation comps) (hgraph : graph.Closed)
    (ha : a ∈ comps.flatten) : a ∈ graph.nodes := by
  obtain ⟨members, hmembers, hmem⟩ := List.mem_flatten.mp ha
  obtain ⟨node, hnode, hcomponent⟩ := h.isComponent members hmembers
  rcases (hcomponent.mem_iff a).mp hmem with rfl | hmutual
  · exact hnode
  · exact hmutual.1.mem_nodes hgraph

-- A component leads back to itself if one of its members does.
theorem isCyclic_iff (h : graph.Condensation comps) (hmembers : members ∈ comps)
    (ha : a ∈ members) : graph.isCyclic members = true ↔ graph.Leads a a := by
  obtain ⟨node, -, hcomponent⟩ := h.isComponent members hmembers
  rw [hcomponent.isCyclic_iff]
  rcases (hcomponent.mem_iff a).mp ha with rfl | hmutual
  · exact .rfl
  · exact iff_of_true (hmutual.1.trans hmutual.2) (hmutual.2.trans hmutual.1)

theorem eq_singleton_of_mem (h : graph.Condensation comps) (hmembers : members ∈ comps)
    (ha : a ∈ members) (hacyclic : ¬ graph.Leads a a) : members = [a] := by
  obtain ⟨node, -, hcomponent⟩ := h.isComponent members hmembers
  rcases (hcomponent.mem_iff a).mp ha with rfl | hmutual
  · exact hcomponent.eq_singleton hacyclic
  · exact absurd (hmutual.2.trans hmutual.1) hacyclic

-- An alias that does not lead back to itself is a component of its own.
theorem exists_split (h : graph.Condensation comps) (ha : a ∈ graph.nodes)
    (hacyclic : ¬ graph.Leads a a) : ∃ front rest, comps = front ++ [a] :: rest := by
  obtain ⟨members, hmembers, hmem⟩ := h.covers a ha
  obtain rfl := h.eq_singleton_of_mem hmembers hmem hacyclic
  exact List.append_of_mem hmembers

theorem not_mem_of_split (h : graph.Condensation comps) (hsplit : comps = front ++ members :: rest)
    (ha : a ∈ members) : a ∉ front.flatten ∧ a ∉ rest.flatten := by
  have hdisjoint := h.disjoint
  rw [hsplit] at hdisjoint
  obtain ⟨-, hback, hcross⟩ := List.pairwise_append.mp hdisjoint
  constructor
  · intro hmem
    obtain ⟨others, hothers, hmem⟩ := List.mem_flatten.mp hmem
    exact hcross others hothers members List.mem_cons_self hmem ha
  · intro hmem
    obtain ⟨others, hothers, hmem⟩ := List.mem_flatten.mp hmem
    exact (List.pairwise_cons.mp hback).1 others hothers ha hmem

-- The first components mention nothing but themselves.
theorem mem_front_of_leads (h : graph.Condensation comps) (hsplit : comps = front ++ rest)
    (ha : a ∈ front.flatten) (hleads : graph.Leads a b) : b ∈ front.flatten := by
  have hstep : ∀ {a b}, a ∈ front.flatten → graph.Mentions a b → b ∈ front.flatten := by
    intro a b ha hmentions
    obtain ⟨members, hmembers, hmem⟩ := List.mem_flatten.mp ha
    obtain ⟨first, second, rfl⟩ := List.append_of_mem hmembers
    have hsplit' : comps = first ++ members :: (second ++ rest) := by simp [hsplit]
    rw [List.flatten_append, List.flatten_cons, List.mem_append, List.mem_append]
    exact (h.sorted hsplit' a hmem b hmentions).imp_right .inl
  induction hleads with
  | single hmentions => exact hstep ha hmentions
  | tail _ hmentions ih => exact hstep ih hmentions

-- All that an alias leads to stands before it.
theorem leads_mem_front (h : graph.Condensation comps) (hsplit : comps = front ++ [a] :: rest)
    (hacyclic : ¬ graph.Leads a a) (hleads : graph.Leads a b) : b ∈ front.flatten := by
  obtain ⟨next, hmentions, hway⟩ := Relation.TransGen.head'_iff.mp hleads
  have hnext : next ∈ front.flatten := by
    refine (h.sorted hsplit a (List.mem_singleton_self a) next hmentions).resolve_right ?_
    intro hself
    obtain rfl := List.mem_singleton.mp hself
    exact hacyclic (.single hmentions)
  rcases Relation.reflTransGen_iff_eq_or_transGen.mp hway with rfl | hway
  · exact hnext
  · exact h.mem_front_of_leads hsplit hnext hway

-- An alias that leads to another does not stand before it.
theorem not_mem_front_of_leads (h : graph.Condensation comps)
    (hsplit : comps = front ++ [a] :: rest) (hleads : graph.Leads b a) : b ∉ front.flatten :=
  fun hmem => (h.not_mem_of_split hsplit (List.mem_singleton_self a)).1
    (h.mem_front_of_leads hsplit hmem hleads)

end Condensation

end AliasGraph

-- A way to find the components of aliases. The reading of programs depends on no more than this.
structure ComponentFinder where
  components : AliasGraph → List (List String)
  condensation : ∀ {graph : AliasGraph}, graph.Closed → graph.Condensation (components graph)

instance : Coe ComponentFinder (AliasGraph → List (List String)) := ⟨ComponentFinder.components⟩

end Conformance
