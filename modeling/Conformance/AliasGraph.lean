import Conformance.Program

namespace Conformance

-- The aliases of a program, each with the aliases that its target mentions, in the
-- order of their first mention.
structure AliasGraph where
  edges : List (String × List String)

namespace AliasGraph

def ofDefs (aliases : List AliasDef) : AliasGraph :=
  let names := aliases.map AliasDef.name
  ⟨aliases.map fun item => (item.name, (item.target.typeNames.filter names.contains).eraseDups)⟩

def nodes (graph : AliasGraph) : List String := graph.edges.map Prod.fst

def successors (graph : AliasGraph) (node : String) : List String :=
  ((graph.edges.find? fun edge => edge.1 = node).map Prod.snd).getD []

-- The aliases met by a search, and among them those it is done with, in that order.
structure Search where
  seen : List String
  finished : List String

-- Searches from an alias in depth, the last mentioned successor first. An alias is
-- finished after all that it leads to. No path of new aliases is longer than their
-- number, which bounds the fuel.
def visit (graph : AliasGraph) : Nat → Search → String → Search
  | 0, search, _ => search
  | fuel + 1, search, node =>
      if search.seen.contains node then search
      else
        let inner := (graph.successors node).reverse.foldl (graph.visit fuel)
          { search with seen := node :: search.seen }
        { inner with finished := inner.finished ++ [node] }

-- All aliases in the order in which a search from each of them in turn finishes them.
def finishOrder (graph : AliasGraph) : List String :=
  (graph.nodes.foldl (graph.visit graph.nodes.length) ⟨[], []⟩).finished

-- The aliases found by following edges from the pending ones, without entering those
-- that are avoided. Every step takes one alias off, and no more are put on than there
-- are edges, which bounds the fuel.
def follow (graph : AliasGraph) (avoided : List String) :
    Nat → (pending found : List String) → List String
  | _, [], found => found
  | 0, _, found => found
  | fuel + 1, node :: pending, found =>
      if found.contains node || avoided.contains node then graph.follow avoided fuel pending found
      else graph.follow avoided fuel (graph.successors node ++ pending) (node :: found)

def edgeCount (graph : AliasGraph) : Nat := (graph.edges.flatMap Prod.snd).length

-- The aliases that an alias leads to in one or more steps, past none that is avoided.
def reachable (graph : AliasGraph) (avoided : List String) (node : String) : List String :=
  graph.follow avoided (2 * graph.edgeCount) (graph.successors node) []

-- The same aliases with every edge turned around.
def reversed (graph : AliasGraph) : AliasGraph :=
  ⟨graph.nodes.map fun node =>
    (node, (graph.edges.filter fun edge => edge.2.contains node).map Prod.fst)⟩

-- An alias with those that it leads to and that lead back to it. The second graph is
-- the reverse of the first. Members of other components may be avoided, since a way
-- there and back stays inside the component.
def component (graph back : AliasGraph) (taken : List String) (node : String) : List String :=
  let before := back.reachable taken node
  if before.isEmpty then [node]
  else
    let after := graph.reachable taken node
    node :: before.filter fun other => other ≠ node && after.contains other

-- The components of the aliases in an order, each at its first member.
def componentsAlong (graph back : AliasGraph) : (order taken : List String) → List (List String)
  | [], _ => []
  | node :: order, taken =>
      if taken.contains node then graph.componentsAlong back order taken
      else
        let members := graph.component back taken node
        members :: graph.componentsAlong back order (members ++ taken)

-- The strongly connected components. A component is finished with the last of its
-- members, so what it depends on stands before it.
def components (graph : AliasGraph) : List (List String) :=
  (graph.componentsAlong graph.reversed graph.finishOrder.reverse []).reverse

-- Whether the aliases of a component lead back to themselves.
def isCyclic (graph : AliasGraph) (component : List String) : Bool :=
  1 < component.length || component.any fun node => (graph.successors node).contains node

end AliasGraph

end Conformance
