import Conformance.Proofs.AliasReach

namespace Conformance

namespace AliasGraph

-- In which order a search in depth finishes the aliases, and so in which order their components
-- stand.

variable {graph : AliasGraph}

-- An alias that is met and not finished lies on the way to where the search is.
def Search.IsOpen (search : Search) (a : String) : Prop := a ∈ search.seen ∧ a ∉ search.finished

-- What a search keeps. When an alias is finished, an edge out of what is finished goes to an
-- alias that is still open, and so leads on to the one that is finished last.
structure Sound (graph : AliasGraph) (search : Search) : Prop where
  nodup : search.finished.Nodup
  seen : ∀ a ∈ search.finished, a ∈ search.seen
  known : ∀ a ∈ search.seen, a ∈ graph.nodes
  edges : ∀ a ∈ search.finished, ∀ b, graph.Mentions a b → b ∈ search.seen
  order : ∀ before last after, search.finished = before ++ last :: after →
    ∀ a, (a ∈ before ∨ a = last) → ∀ b, graph.Mentions a b →
      b ∈ before ∨ Relation.ReflTransGen graph.Mentions b last

-- A search goes on and finishes all that it meets on the way.
structure Continues (search later : Search) : Prop where
  seen : ∀ a ∈ search.seen, a ∈ later.seen
  isOpen_iff : ∀ a, later.IsOpen a ↔ search.IsOpen a

theorem Continues.refl (search : Search) : Continues search search := ⟨fun _ h => h, fun _ => .rfl⟩

theorem Continues.trans {first second third : Search} (h : Continues first second)
    (h' : Continues second third) : Continues first third :=
  ⟨fun a ha => h'.seen a (h.seen a ha), fun a => (h'.isOpen_iff a).trans (h.isOpen_iff a)⟩

-- The aliases that are not met yet.
def unseen (graph : AliasGraph) (search : Search) : Nat :=
  (graph.nodes.filter fun node => !search.seen.contains node).length

theorem Continues.unseen_le {search later : Search} (h : Continues search later) :
    graph.unseen later ≤ graph.unseen search := by
  refine (List.monotone_filter_right graph.nodes fun node hnode => ?_).length_le
  have hnew : node ∉ later.seen := by simpa using hnode
  simpa using fun hmem => hnew (h.seen node hmem)

theorem unseen_insert {search : Search} {node : String} (hnode : node ∈ graph.nodes)
    (hnew : node ∉ search.seen) :
    graph.unseen { search with seen := node :: search.seen } < graph.unseen search := by
  have hfilter : (graph.nodes.filter fun other => !(node :: search.seen).contains other) =
      (graph.nodes.filter fun other => !search.seen.contains other).filter (· ≠ node) := by
    rw [List.filter_filter]
    refine List.filter_congr fun other _ => ?_
    by_cases heq : other = node <;> simp [heq]
  rw [unseen, unseen, hfilter, List.length_filter_lt_length_iff_exists]
  exact ⟨node, List.mem_filter.mpr ⟨hnode, by simpa using hnew⟩, by simp⟩

-- One visit after another, if each may be made from where the search is.
theorem foldl_visit {visit : Search → String → Search} {room : Nat}
    (hvisit : ∀ search node, graph.Sound search → node ∈ graph.nodes →
      graph.unseen search ≤ room →
      (∀ a, search.IsOpen a → Relation.ReflTransGen graph.Mentions a node) →
      graph.Sound (visit search node) ∧ Continues search (visit search node) ∧
        node ∈ (visit search node).seen)
    (nodes : List String) {search : Search} (hsearch : graph.Sound search)
    (hroom : graph.unseen search ≤ room)
    (hnodes : ∀ node ∈ nodes, node ∈ graph.nodes ∧
      ∀ a, search.IsOpen a → Relation.ReflTransGen graph.Mentions a node) :
    graph.Sound (nodes.foldl visit search) ∧ Continues search (nodes.foldl visit search) ∧
      ∀ node ∈ nodes, node ∈ (nodes.foldl visit search).seen := by
  induction nodes generalizing search with
  | nil => exact ⟨hsearch, .refl search, by simp⟩
  | cons node nodes ih =>
      obtain ⟨hfirst, hrest⟩ := List.forall_mem_cons.mp hnodes
      obtain ⟨hsound, hcontinues, hseen⟩ := hvisit search node hsearch hfirst.1 hroom hfirst.2
      have hroom' : graph.unseen (visit search node) ≤ graph.unseen search := hcontinues.unseen_le
      obtain ⟨hsound', hcontinues', hseen'⟩ := ih hsound (by omega) fun other hother =>
        ⟨(hrest other hother).1, fun a ha =>
          (hrest other hother).2 a ((hcontinues.isOpen_iff a).mp ha)⟩
      exact ⟨hsound', hcontinues.trans hcontinues',
        List.forall_mem_cons.mpr ⟨hcontinues'.seen node hseen, hseen'⟩⟩

-- An alias is finished when all that it mentions is met.
theorem Sound.finish {search : Search} (h : graph.Sound search) {node : String}
    (hopen : search.IsOpen node)
    (hedges : ∀ b, graph.Mentions node b → b ∈ search.seen)
    (hleads : ∀ a, search.IsOpen a → Relation.ReflTransGen graph.Mentions a node) :
    graph.Sound { search with finished := search.finished ++ [node] } := by
  have hall : ∀ a ∈ search.finished ++ [node], ∀ b, graph.Mentions a b → b ∈ search.seen := by
    intro a ha b hb
    rcases List.mem_append.mp ha with ha | ha
    · exact h.edges a ha b hb
    · rw [List.mem_singleton.mp ha] at hb
      exact hedges b hb
  refine ⟨?_, ?_, h.known, hall, ?_⟩
  · exact List.nodup_append.mpr ⟨h.nodup, List.nodup_singleton node, by
      rintro a ha _ hnode rfl
      rw [List.mem_singleton.mp hnode] at ha
      exact hopen.2 ha⟩
  · intro a ha
    rcases List.mem_append.mp ha with ha | ha
    · exact h.seen a ha
    · rw [List.mem_singleton.mp ha]
      exact hopen.1
  · intro before last after hsplit a ha b hb
    dsimp only at hsplit
    rcases List.eq_nil_or_concat after with rfl | ⟨after, final, rfl⟩
    · obtain ⟨rfl, hlast⟩ := List.append_inj' hsplit rfl
      obtain rfl : node = last := by simpa using hlast
      by_cases hfinished : b ∈ search.finished
      · exact .inl hfinished
      · have hb' : b ∈ search.seen := hall a (by simpa using ha) b hb
        exact .inr (hleads b ⟨hb', hfinished⟩)
    · have hsplit' : search.finished ++ [node] = (before ++ last :: after) ++ [final] := by
        simpa using hsplit
      obtain ⟨hfinished, -⟩ := List.append_inj' hsplit' rfl
      exact h.order before last after hfinished a ha b hb

-- The fuel suffices, since every visit inside a visit finds one alias less that is not met.
theorem visit_sound (hgraph : graph.Closed) (fuel : Nat) :
    ∀ search node, graph.Sound search → node ∈ graph.nodes → graph.unseen search ≤ fuel →
      (∀ a, search.IsOpen a → Relation.ReflTransGen graph.Mentions a node) →
      graph.Sound (graph.visit fuel search node) ∧
        Continues search (graph.visit fuel search node) ∧
        node ∈ (graph.visit fuel search node).seen := by
  induction fuel with
  | zero =>
      intro search node hsearch hnode hroom _
      have hseen : node ∈ search.seen := by
        by_contra hnew
        have hless := unseen_insert hnode hnew
        omega
      exact ⟨hsearch, .refl search, hseen⟩
  | succ fuel ih =>
      intro search node hsearch hnode hroom hleads
      rw [visit]
      split
      · rename_i hseen
        exact ⟨hsearch, .refl search, by simpa using hseen⟩
      · rename_i hseen
        have hnew : node ∉ search.seen := by simpa using hseen
        have hless := unseen_insert hnode hnew
        have hfresh : node ∉ search.finished := fun h => hnew (hsearch.seen node h)
        have hstart : graph.Sound { search with seen := node :: search.seen } :=
          { nodup := hsearch.nodup
            seen := fun a ha => List.mem_cons_of_mem _ (hsearch.seen a ha)
            known := List.forall_mem_cons.mpr ⟨hnode, hsearch.known⟩
            edges := fun a ha b hb => List.mem_cons_of_mem _ (hsearch.edges a ha b hb)
            order := hsearch.order }
        have hopen : ∀ a, Search.IsOpen { search with seen := node :: search.seen } a →
            Relation.ReflTransGen graph.Mentions a node := by
          rintro a ⟨hmem, hfinished⟩
          rcases List.mem_cons.mp hmem with rfl | hmem
          · exact .refl
          · exact hleads a ⟨hmem, hfinished⟩
        obtain ⟨hsound, hcontinues, hmet⟩ := foldl_visit ih (graph.successors node).reverse hstart
          (by omega) fun next hnext =>
            have hstep : graph.Mentions node next := List.mem_reverse.mp hnext
            ⟨hgraph.mem_nodes hstep, fun a ha => (hopen a ha).tail hstep⟩
        dsimp only
        generalize (graph.successors node).reverse.foldl (graph.visit fuel)
          { search with seen := node :: search.seen } = inner at hsound hcontinues hmet ⊢
        have hself : inner.IsOpen node :=
          (hcontinues.isOpen_iff node).mpr ⟨List.mem_cons_self, hfresh⟩
        refine ⟨hsound.finish hself (fun b hb => hmet b (List.mem_reverse.mpr hb)) fun a ha =>
          hopen a ((hcontinues.isOpen_iff a).mp ha), ⟨fun a ha => ?_, fun a => ?_⟩, hself.1⟩
        · exact hcontinues.seen a (List.mem_cons_of_mem _ ha)
        · have hinner := hcontinues.isOpen_iff a
          simp only [Search.IsOpen, List.mem_append, List.mem_cons, List.not_mem_nil, or_false,
            not_or] at hinner ⊢
          by_cases heq : a = node
          · subst heq
            simp [hnew]
          · simp only [heq, false_or, not_false_eq_true, and_true] at hinner ⊢
            exact hinner

theorem finishOrder_sound (hgraph : graph.Closed) :
    graph.finishOrder.Nodup ∧ (∀ a, a ∈ graph.finishOrder ↔ a ∈ graph.nodes) ∧
      ∀ before last after, graph.finishOrder = before ++ last :: after →
        ∀ a, (a ∈ before ∨ a = last) → ∀ b, graph.Mentions a b →
          b ∈ before ∨ Relation.ReflTransGen graph.Mentions b last := by
  have hstart : graph.Sound ⟨[], []⟩ := ⟨by simp, by simp, by simp, by simp, by simp⟩
  have hroom : graph.unseen ⟨[], []⟩ ≤ graph.nodes.length := List.length_filter_le _ _
  obtain ⟨hsound, hcontinues, hseen⟩ := foldl_visit (visit_sound hgraph graph.nodes.length)
    graph.nodes hstart hroom fun node hnode => ⟨hnode, by simp [Search.IsOpen]⟩
  refine ⟨hsound.nodup, fun a => ⟨fun ha => hsound.known a (hsound.seen a ha), fun ha => ?_⟩,
    hsound.order⟩
  by_contra hopen
  have hnone := (hcontinues.isOpen_iff a).mp ⟨hseen a ha, hopen⟩
  simp [Search.IsOpen] at hnone

-- Of what is finished before an alias, all that leads to something finished later leads to the
-- alias on the way.
theorem leads_last (hgraph : graph.Closed) {before after : List String} {last a b : String}
    (hsplit : graph.finishOrder = before ++ last :: after) (ha : a ∈ before)
    (h : graph.Leads a b) (hb : b ∉ before) : Relation.ReflTransGen graph.Mentions a last := by
  obtain ⟨-, -, horder⟩ := finishOrder_sound hgraph
  have hway : b ∈ before ∨ Relation.ReflTransGen graph.Mentions a last := by
    clear hb
    induction h with
    | single hstep =>
        exact (horder before last after hsplit a (.inl ha) _ hstep).imp_right (.head hstep)
    | tail hway hstep ih =>
        rcases ih with hbefore | hleads
        · exact (horder before last after hsplit _ (.inl hbefore) _ hstep).imp_right
            (hway.to_reflTransGen.tail hstep).trans
        · exact .inr hleads
  exact hway.resolve_left hb

-- The components come in the order of their last members, so nothing mentions a later one.
theorem mem_component_of_mentions (hgraph : graph.Closed) {first second : List String}
    {node a b r : String} {members others : List String}
    (horder : graph.finishOrder.reverse = first ++ node :: second)
    (hmembers : graph.IsComponent members node) (ha : a ∈ members) (hlate : a ∉ first)
    (hmentions : graph.Mentions a b) (hothers : graph.IsComponent others r) (hr : r ∈ first)
    (hb : b ∈ others) : b ∈ members := by
  obtain ⟨hnodup, hmem, hfinish⟩ := finishOrder_sound hgraph
  have hsplit : graph.finishOrder = second.reverse ++ node :: first.reverse := by
    rw [← List.reverse_reverse graph.finishOrder, horder]
    simp
  have hthere : Relation.ReflTransGen graph.Mentions node a := by
    rcases (hmembers.mem_iff a).mp ha with rfl | hmutual
    · exact .refl
    · exact hmutual.1.to_reflTransGen
  have hknown : a ∈ second.reverse ∨ a = node := by
    have hfinished : a ∈ graph.finishOrder := by
      rw [hmem]
      rcases (hmembers.mem_iff a).mp ha with rfl | hmutual
      · exact (hmem a).mp (by simp [hsplit])
      · exact hmutual.1.mem_nodes hgraph
    simpa [hsplit, hlate] using hfinished
  have hr : r ∉ second.reverse := by
    rw [hsplit, List.nodup_append] at hnodup
    exact fun h => hnodup.2.2 r h r (by simp [hr]) rfl
  have hback : Relation.ReflTransGen graph.Mentions b node := by
    rcases hfinish _ _ _ hsplit a hknown b hmentions with hbefore | hback
    · rcases (hothers.mem_iff b).mp hb with rfl | hmutual
      · exact absurd hbefore hr
      · exact leads_last hgraph hsplit hbefore hmutual.2 hr
    · exact hback
  have hleads : graph.Leads node b := Relation.TransGen.tail' hthere hmentions
  rw [hmembers.mem_iff]
  exact (Relation.reflTransGen_iff_eq_or_transGen.mp hback).imp Eq.symm fun h => ⟨hleads, h⟩

theorem condensation_components (hgraph : graph.Closed) :
    graph.Condensation graph.components := by
  obtain ⟨-, hmem, -⟩ := finishOrder_sound hgraph
  have hnone : graph.Whole [] := fun _ h => by cases h
  have hpartition := componentsAlong_partition hgraph graph.finishOrder.reverse hnone
  have hcovers : ∀ node ∈ graph.nodes, ∃ members ∈ graph.components, node ∈ members := by
    intro node hnode
    obtain ⟨members, hmembers, hmem⟩ :=
      (hpartition.covers node (List.mem_reverse.mpr ((hmem node).mpr hnode))).resolve_left
        List.not_mem_nil
    exact ⟨members, List.mem_reverse.mpr hmembers, hmem⟩
  refine ⟨fun members hmembers => ?_, ?_, hcovers, ?_⟩
  · obtain ⟨node, hnode, -, hcomponent⟩ :=
      hpartition.components members (List.mem_reverse.mp hmembers)
    exact ⟨node, (hmem node).mp (List.mem_reverse.mp hnode), hcomponent⟩
  · refine List.pairwise_reverse.mpr (hpartition.disjoint.imp fun hdisjoint => ?_)
    exact List.disjoint_symm hdisjoint
  · intro front members rest hsplit a ha b hmentions
    obtain ⟨others, hothers, hb⟩ := hcovers b (hgraph.mem_nodes hmentions)
    rw [hsplit, List.mem_append, List.mem_cons] at hothers
    rcases hothers with hfront | rfl | hrest
    · exact .inl (List.mem_flatten.mpr ⟨others, hfront, hb⟩)
    · exact .inr hb
    -- A component that stands later was found earlier, from an alias that was finished later.
    have halong : graph.componentsAlong graph.reversed graph.finishOrder.reverse [] =
        rest.reverse ++ members :: front.reverse := by
      rw [← List.reverse_reverse (graph.componentsAlong _ _ _), ← components, hsplit]
      simp
    obtain ⟨first, node, second, horder, hfirst, hnode, rfl⟩ := componentsAlong_split halong
    have hearlier := componentsAlong_partition hgraph first hnone
    rw [hfirst] at hearlier
    have hmembers := isComponent_component hgraph hearlier.whole hnode
    obtain ⟨r, hr, -, hcomponent⟩ := hearlier.components others (List.mem_reverse.mpr hrest)
    refine .inr (mem_component_of_mentions hgraph horder hmembers ha (fun hearly => ?_) hmentions
      hcomponent hr hb)
    obtain ⟨taken, htaken, hmem⟩ := (hearlier.covers a hearly).resolve_left List.not_mem_nil
    have hwhole := hpartition.disjoint
    rw [halong] at hwhole
    exact (List.pairwise_append.mp hwhole).2.2 taken htaken _ List.mem_cons_self hmem ha

end AliasGraph

-- The components as a search in depth finds them.
def depthFirst : ComponentFinder := ⟨AliasGraph.components, AliasGraph.condensation_components⟩

end Conformance
