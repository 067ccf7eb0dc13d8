import Conformance.Collection
import Conformance.Proofs.AliasComponents
import Conformance.Proofs.DeclarationFaces
import Mathlib.Data.List.Induction

namespace Conformance

namespace AliasGraph

variable {aliases others : List AliasDef} {a b : String}

theorem nodes_ofDefs : (ofDefs aliases).nodes = aliases.map AliasDef.name := by
  simp [nodes, ofDefs, Function.comp_def]

-- An alias mentions those aliases whose names stand in its target.
theorem mentions_ofDefs (hnodup : (aliases.map AliasDef.name).Nodup) :
    (ofDefs aliases).Mentions a b ↔ ∃ item ∈ aliases, item.name = a ∧
      b ∈ item.target.typeNames ∧ b ∈ aliases.map AliasDef.name := by
  have hnodes : (ofDefs aliases).nodes.Nodup := by rwa [nodes_ofDefs]
  rw [mentions_iff hnodes]
  constructor
  · rintro ⟨targets, hedge, hb⟩
    obtain ⟨item, hitem, heq⟩ := List.mem_map.mp hedge
    obtain ⟨rfl, rfl⟩ := Prod.mk.inj heq
    have hmem := List.mem_filter.mp (List.mem_eraseDups.mp hb)
    exact ⟨item, hitem, rfl, hmem.1, List.contains_iff_mem.mp hmem.2⟩
  · rintro ⟨item, hitem, rfl, htarget, hname⟩
    refine ⟨_, List.mem_map.mpr ⟨item, hitem, rfl⟩, List.mem_eraseDups.mpr ?_⟩
    exact List.mem_filter.mpr ⟨htarget, List.contains_iff_mem.mpr hname⟩

theorem closed_ofDefs (hnodup : (aliases.map AliasDef.name).Nodup) : (ofDefs aliases).Closed where
  nodup := by rwa [nodes_ofDefs]
  mem_nodes := by
    intro a b h
    obtain ⟨-, -, -, -, hb⟩ := (mentions_ofDefs hnodup).mp h
    rwa [nodes_ofDefs]

theorem leads_ofDefs_perm (hnodup : (aliases.map AliasDef.name).Nodup)
    (hperm : aliases.Perm others) : (ofDefs aliases).Leads = (ofDefs others).Leads := by
  have hnames := hperm.map AliasDef.name
  have hmentions : (ofDefs aliases).Mentions = (ofDefs others).Mentions := by
    funext a b
    rw [eq_iff_iff, mentions_ofDefs hnodup, mentions_ofDefs (hnames.nodup_iff.mp hnodup)]
    simp only [hperm.mem_iff, hnames.mem_iff]
  rw [Leads, Leads, hmentions]

end AliasGraph

-- Of two aliases of which one is looked up to read the other, their targets say which comes
-- first, unless one leads back to itself and so stays unknown.
def RankedAliases (aliases : List AliasDef) : Prop :=
  ∀ item ∈ aliases, ∀ name ∈ item.consulted, name ∈ aliases.map AliasDef.name →
    name ≠ item.name → ¬ (AliasGraph.ofDefs aliases).Leads item.name item.name →
    ¬ (AliasGraph.ofDefs aliases).Leads name name →
    (AliasGraph.ofDefs aliases).Leads item.name name ∨
      (AliasGraph.ofDefs aliases).Leads name item.name

namespace Collection

variable {finder : ComponentFinder} {aliases : List AliasDef} {graph : AliasGraph} {name : String}

-- Reading a component binds no name outside of it, and none at all if it leads back to itself.
theorem lookup?_readComponent (c : Collection) {members : List String}
    (h : name ∈ members → graph.isCyclic members = true) :
    (readComponent aliases graph c members).env.lookup? name = c.env.lookup? name := by
  rw [readComponent]
  split
  · rfl
  · rename_i item hfind
    have hmember : item.name ∈ members := by simpa using List.find?_some hfind
    split
    · rfl
    · rename_i hacyclic
      have hne : item.name ≠ name := by
        rintro rfl
        exact hacyclic (h hmember)
      exact (Environment.lookup?_define _ _ _ _).trans (if_neg hne)

theorem lookup?_foldl_readComponent (c : Collection) {comps : List (List String)}
    (h : ∀ members ∈ comps, name ∈ members → graph.isCyclic members = true) :
    (comps.foldl (readComponent aliases graph) c).env.lookup? name = c.env.lookup? name := by
  induction comps generalizing c with
  | nil => rfl
  | cons members comps ih =>
      obtain ⟨hfirst, hrest⟩ := List.forall_mem_cons.mp h
      rw [List.foldl_cons, ih _ hrest, lookup?_readComponent c hfirst]

theorem readComponent_singleton (hnodup : (aliases.map AliasDef.name).Nodup) (c : Collection)
    {item : AliasDef} (hitem : item ∈ aliases) (hacyclic : graph.isCyclic [item.name] = false) :
    readComponent aliases graph c [item.name] =
      c.define item.name (.alias (item.elaborate c.env)) := by
  have hfind : aliases.find? (fun other => [item.name].contains other.name) = some item := by
    have hpairwise := List.pairwise_map.mp hnodup
    clear hnodup
    induction aliases with
    | nil => cases hitem
    | cons first rest ih =>
        obtain ⟨hfirst, hrest⟩ := List.pairwise_cons.mp hpairwise
        rcases List.mem_cons.mp hitem with rfl | hmem
        · simp
        · have hne : first.name ≠ item.name := hfirst item hmem
          simpa [hne] using ih hmem hrest
  simp only [readComponent, hfind, hacyclic, Bool.false_eq_true, if_false]

-- Once the component of an alias is read, its meaning stays.
theorem lookup?_readAliases_eq (c : Collection) {front rest : List (List String)}
    (hsplit : finder.components (AliasGraph.ofDefs aliases) = front ++ rest)
    (hrest : name ∉ rest.flatten) :
    (c.readAliases finder aliases).env.lookup? name =
      (front.foldl (readComponent aliases (AliasGraph.ofDefs aliases)) c).env.lookup? name := by
  rw [readAliases, hsplit, List.foldl_append]
  exact lookup?_foldl_readComponent _ fun members hmembers hname =>
    absurd (List.mem_flatten.mpr ⟨members, hmembers, hname⟩) hrest

section Components

variable (hnodup : (aliases.map AliasDef.name).Nodup)

include hnodup

-- Names that are not aliases, and aliases that lead back to themselves, are never bound.
theorem lookup?_unread (c : Collection) {front rest : List (List String)}
    (hsplit : finder.components (AliasGraph.ofDefs aliases) = front ++ rest)
    (h : name ∉ front.flatten ∨ (AliasGraph.ofDefs aliases).Leads name name) :
    (front.foldl (readComponent aliases (AliasGraph.ofDefs aliases)) c).env.lookup? name =
      c.env.lookup? name := by
  have hcomponents := finder.condensation (AliasGraph.closed_ofDefs hnodup)
  refine lookup?_foldl_readComponent c fun members hmembers hname => ?_
  have hleads := h.resolve_left fun hnot => hnot (List.mem_flatten.mpr ⟨members, hmembers, hname⟩)
  exact (hcomponents.isCyclic_iff (by simp [hsplit, hmembers]) hname).mpr hleads

theorem lookup?_readAliases_item (c : Collection) {item : AliasDef} (hitem : item ∈ aliases)
    (hacyclic : ¬ (AliasGraph.ofDefs aliases).Leads item.name item.name)
    {front rest : List (List String)}
    (hsplit : finder.components (AliasGraph.ofDefs aliases) = front ++ [item.name] :: rest) :
    (c.readAliases finder aliases).env.lookup? item.name = some (.alias (item.elaborate
      (front.foldl (readComponent aliases (AliasGraph.ofDefs aliases)) c).env)) := by
  have hcomponents := finder.condensation (AliasGraph.closed_ofDefs hnodup)
  obtain ⟨-, hrest⟩ := hcomponents.not_mem_of_split hsplit List.mem_cons_self
  have hcyclic : (AliasGraph.ofDefs aliases).isCyclic [item.name] = false := by
    rw [← Bool.not_eq_true, hcomponents.isCyclic_iff (by simp [hsplit]) List.mem_cons_self]
    exact hacyclic
  have hsplit' : finder.components (AliasGraph.ofDefs aliases) =
      (front ++ [[item.name]]) ++ rest := by
    simp [hsplit]
  rw [lookup?_readAliases_eq c hsplit' hrest, List.foldl_append, List.foldl_cons,
    List.foldl_nil, readComponent_singleton hnodup _ hitem hcyclic, define,
    Environment.lookup?_define, if_pos rfl]

-- When the turn of an alias comes, what it leads to has its final meaning.
theorem lookup?_at_turn_of_leads (c : Collection) {a : String} {front rest : List (List String)}
    (hsplit : finder.components (AliasGraph.ofDefs aliases) = front ++ [a] :: rest)
    (hacyclic : ¬ (AliasGraph.ofDefs aliases).Leads a a)
    (h : (AliasGraph.ofDefs aliases).Leads a name) :
    (front.foldl (readComponent aliases (AliasGraph.ofDefs aliases)) c).env.lookup? name =
      (c.readAliases finder aliases).env.lookup? name := by
  have hcomponents := finder.condensation (AliasGraph.closed_ofDefs hnodup)
  have hfront := hcomponents.leads_mem_front hsplit hacyclic h
  obtain ⟨members, hmembers, hmem⟩ := List.mem_flatten.mp hfront
  have hdisjoint := hcomponents.disjoint
  rw [hsplit] at hdisjoint
  refine (lookup?_readAliases_eq c hsplit fun hlater => ?_).symm
  obtain ⟨others, hothers, hmem'⟩ := List.mem_flatten.mp hlater
  exact (List.pairwise_append.mp hdisjoint).2.2 members hmembers others hothers hmem hmem'

-- Whatever is no alias, leads back to itself or leads to the alias has its first meaning.
theorem lookup?_at_turn_of_not_read (c : Collection) {a : String} {front rest : List (List String)}
    (hsplit : finder.components (AliasGraph.ofDefs aliases) = front ++ [a] :: rest)
    (h : name ∉ aliases.map AliasDef.name ∨ (AliasGraph.ofDefs aliases).Leads name name ∨
      name = a ∨ (AliasGraph.ofDefs aliases).Leads name a) :
    (front.foldl (readComponent aliases (AliasGraph.ofDefs aliases)) c).env.lookup? name =
      c.env.lookup? name := by
  have hgraph := AliasGraph.closed_ofDefs hnodup
  have hcomponents := finder.condensation hgraph
  refine lookup?_unread hnodup c hsplit ?_
  rcases h with hother | hleads | rfl | hleads
  · rw [← AliasGraph.nodes_ofDefs] at hother
    refine .inl fun hmem => hother (hcomponents.mem_nodes hgraph ?_)
    rw [hsplit, List.flatten_append]
    exact List.mem_append_left _ hmem
  · exact .inr hleads
  · exact .inl (hcomponents.not_mem_of_split hsplit List.mem_cons_self).1
  · exact .inl (hcomponents.not_mem_front_of_leads hsplit hleads)

theorem lookup?_readAliases_unread (c : Collection)
    (h : name ∉ aliases.map AliasDef.name ∨ (AliasGraph.ofDefs aliases).Leads name name) :
    (c.readAliases finder aliases).env.lookup? name = c.env.lookup? name := by
  have hgraph := AliasGraph.closed_ofDefs hnodup
  have hsplit : finder.components (AliasGraph.ofDefs aliases) =
      finder.components (AliasGraph.ofDefs aliases) ++ [] := (List.append_nil _).symm
  rw [lookup?_readAliases_eq c hsplit (by simp)]
  refine lookup?_unread hnodup c hsplit (h.imp_left fun hother hmem => ?_)
  rw [← AliasGraph.nodes_ofDefs] at hother
  exact hother ((finder.condensation hgraph).mem_nodes hgraph hmem)

end Components

section Orders

variable {finder' : ComponentFinder} {others : List AliasDef} {c c' : Collection}
  (hnodup : (aliases.map AliasDef.name).Nodup) (hperm : aliases.Perm others)
  (hranked : RankedAliases aliases) (henv : ∀ name, c.env.lookup? name = c'.env.lookup? name)

include hnodup hperm hranked henv

-- What an alias looks up when its turn comes is the same in every order of the aliases.
theorem lookup?_consulted {item : AliasDef} (hitem : item ∈ aliases)
    (hacyclic : ¬ (AliasGraph.ofDefs aliases).Leads item.name item.name)
    {front rest front' rest' : List (List String)}
    (hsplit : finder.components (AliasGraph.ofDefs aliases) = front ++ [item.name] :: rest)
    (hsplit' : finder'.components (AliasGraph.ofDefs others) = front' ++ [item.name] :: rest')
    (hread : ∀ name, (AliasGraph.ofDefs aliases).Leads item.name name →
      (c.readAliases finder aliases).env.lookup? name =
        (c'.readAliases finder' others).env.lookup? name)
    (hname : name ∈ item.consulted) :
    (front.foldl (readComponent aliases (AliasGraph.ofDefs aliases)) c).env.lookup? name =
      (front'.foldl (readComponent others (AliasGraph.ofDefs others)) c').env.lookup? name := by
  have hnames := hperm.map AliasDef.name
  have hnodup' : (others.map AliasDef.name).Nodup := hnames.nodup_iff.mp hnodup
  have hleads := AliasGraph.leads_ofDefs_perm hnodup hperm
  have hunread (h : name ∉ aliases.map AliasDef.name ∨ (AliasGraph.ofDefs aliases).Leads name name ∨
      name = item.name ∨ (AliasGraph.ofDefs aliases).Leads name item.name) :
      (front.foldl (readComponent aliases (AliasGraph.ofDefs aliases)) c).env.lookup? name =
        (front'.foldl (readComponent others (AliasGraph.ofDefs others)) c').env.lookup? name := by
    have h' := h
    rw [hnames.mem_iff, hleads] at h'
    rw [lookup?_at_turn_of_not_read hnodup c hsplit h,
      lookup?_at_turn_of_not_read hnodup' c' hsplit' h', henv]
  by_cases halias : name ∈ aliases.map AliasDef.name
  · by_cases hcircular : (AliasGraph.ofDefs aliases).Leads name name
    · exact hunread (.inr (.inl hcircular))
    · by_cases hself : name = item.name
      · exact hunread (.inr (.inr (.inl hself)))
      · rcases hranked item hitem name hname halias hself hacyclic hcircular with hbefore | hafter
        · have hfinal := hread name hbefore
          rw [lookup?_at_turn_of_leads hnodup c hsplit hacyclic hbefore, hfinal]
          rw [hleads] at hacyclic hbefore
          rw [lookup?_at_turn_of_leads hnodup' c' hsplit' hacyclic hbefore]
        · exact hunread (.inr (.inr (.inr hafter)))
  · exact hunread (.inl halias)

-- An alias means the same in both orders if all that it leads to does.
theorem lookup?_item_perm {item : AliasDef} (hitem : item ∈ aliases)
    (hacyclic : ¬ (AliasGraph.ofDefs aliases).Leads item.name item.name)
    (hread : ∀ name, (AliasGraph.ofDefs aliases).Leads item.name name →
      (c.readAliases finder aliases).env.lookup? name =
        (c'.readAliases finder' others).env.lookup? name) :
    (c.readAliases finder aliases).env.lookup? item.name =
      (c'.readAliases finder' others).env.lookup? item.name := by
  have hnodup' : (others.map AliasDef.name).Nodup := (hperm.map AliasDef.name).nodup_iff.mp hnodup
  have hitem' := hperm.mem_iff.mp hitem
  have hnode : item.name ∈ (AliasGraph.ofDefs aliases).nodes := by
    rw [AliasGraph.nodes_ofDefs]
    exact List.mem_map_of_mem hitem
  have hnode' : item.name ∈ (AliasGraph.ofDefs others).nodes := by
    rw [AliasGraph.nodes_ofDefs]
    exact List.mem_map_of_mem hitem'
  have hacyclic' : ¬ (AliasGraph.ofDefs others).Leads item.name item.name := by
    rwa [← AliasGraph.leads_ofDefs_perm hnodup hperm]
  obtain ⟨front, rest, hsplit⟩ :=
    (finder.condensation (AliasGraph.closed_ofDefs hnodup)).exists_split hnode hacyclic
  obtain ⟨front', rest', hsplit'⟩ :=
    (finder'.condensation (AliasGraph.closed_ofDefs hnodup')).exists_split hnode' hacyclic'
  rw [lookup?_readAliases_item hnodup c hitem hacyclic hsplit,
    lookup?_readAliases_item hnodup' c' hitem' hacyclic' hsplit',
    item.elaborate_congr fun name hname => congrArg (Option.map Declaration.face)
      (lookup?_consulted hnodup hperm hranked henv hitem hacyclic hsplit hsplit' hread hname)]

-- The aliases are gone through in the order of the components on one side. What an alias leads
-- to stands before it there, and so the induction covers it.
theorem readAliases_perm (name : String) :
    (c.readAliases finder aliases).env.lookup? name =
      (c'.readAliases finder' others).env.lookup? name := by
  have hnames := hperm.map AliasDef.name
  have hnodup' : (others.map AliasDef.name).Nodup := hnames.nodup_iff.mp hnodup
  have hgraph := AliasGraph.closed_ofDefs hnodup
  have hcomponents := finder.condensation hgraph
  have hleads := AliasGraph.leads_ofDefs_perm hnodup hperm
  have hunread (name : String)
      (h : name ∉ aliases.map AliasDef.name ∨ (AliasGraph.ofDefs aliases).Leads name name) :
      (c.readAliases finder aliases).env.lookup? name =
        (c'.readAliases finder' others).env.lookup? name := by
    have h' := h
    rw [hnames.mem_iff, hleads] at h'
    rw [lookup?_readAliases_unread hnodup c h, lookup?_readAliases_unread hnodup' c' h', henv]
  have hread (front : List (List String)) : ∀ rest,
      finder.components (AliasGraph.ofDefs aliases) = front ++ rest → ∀ name ∈ front.flatten,
        (c.readAliases finder aliases).env.lookup? name =
          (c'.readAliases finder' others).env.lookup? name := by
    induction front using List.reverseRecOn with
    | nil => simp
    | append_singleton front members ih =>
        intro rest hsplit name hname
        have hsplit : finder.components (AliasGraph.ofDefs aliases) = front ++ members :: rest := by
          simpa using hsplit
        rw [List.flatten_append, List.mem_append] at hname
        rcases hname with hname | hname
        · exact ih _ hsplit name hname
        have hname : name ∈ members := by simpa using hname
        by_cases hcircular : (AliasGraph.ofDefs aliases).Leads name name
        · exact hunread name (.inr hcircular)
        · have hmembers : members ∈ finder.components (AliasGraph.ofDefs aliases) := by
            simp [hsplit]
          have hnode :=
            hcomponents.mem_nodes hgraph (List.mem_flatten.mpr ⟨members, hmembers, hname⟩)
          obtain rfl := hcomponents.eq_singleton_of_mem hmembers hname hcircular
          rw [AliasGraph.nodes_ofDefs] at hnode
          obtain ⟨item, hitem, rfl⟩ := List.mem_map.mp hnode
          exact lookup?_item_perm hnodup hperm hranked henv hitem hcircular fun other hleads =>
            ih _ hsplit other (hcomponents.leads_mem_front hsplit hcircular hleads)
  by_cases hread' : name ∈ (finder.components (AliasGraph.ofDefs aliases)).flatten
  · exact hread _ [] (List.append_nil _).symm name hread'
  · refine hunread name (.inl fun hname => hread' ?_)
    rw [← AliasGraph.nodes_ofDefs] at hname
    exact List.mem_flatten.mpr (hcomponents.covers name hname)

end Orders

end Collection

end Conformance
