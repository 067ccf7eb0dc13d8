import Conformance.AliasGraph
import Conformance.Elaboration
import Conformance.Overload

namespace Conformance

-- What is known of a program after reading its declarations.
structure Collection where
  env : Environment := ∅
  registry : Registry := ∅
  diagnostics : List Diagnostic := []

namespace Collection

def report (c : Collection) (problem : Problem) (node : Option Span) : Collection :=
  { c with diagnostics := c.diagnostics ++ [⟨problem, node⟩] }

def reportAll (c : Collection) (problems : List Problem) (node : Option Span) : Collection :=
  problems.foldl (fun c problem => c.report problem node) c

def define (c : Collection) (name : String) (decl : Declaration) : Collection :=
  { c with env := c.env.define name decl }

-- Makes the name of an item known. A type of a name that is taken is reported and left
-- out; the items that are kept come back in order.
def declareShells : Collection → List Item → Collection × List Item
  | c, [] => (c, [])
  | c, item :: rest =>
      match item.typeName?, item.shell? with
      | some name, some shell =>
          if (c.env.lookupLocal? name).isSome then
            (c.report (.duplicateDeclaration name) (some item.span)).declareShells rest
          else
            let (c, kept) := (c.define name shell).declareShells rest
            (c, item :: kept)
      | _, _ =>
          let (c, kept) := c.declareShells rest
          (c, item :: kept)

-- The names of a cycle in order, with the first one again at the end.
def cycleNames (component : List String) : List String :=
  let names := labelSet component
  names ++ names.take 1

-- Reads a component of aliases. One that leads back to itself is reported at its first
-- alias in the source, and its aliases stay unknown.
def readComponent (aliases : List AliasDef) (graph : AliasGraph) (c : Collection)
    (component : List String) : Collection :=
  match aliases.find? fun item => component.contains item.name with
  | none => c
  | some item =>
      if graph.isCyclic component then
        c.report (.aliasCycle (cycleNames component)) (some item.span)
      else c.define item.name (.alias (item.elaborate c.env))

-- Aliases are read after those that they mention, component by component. How the components
-- are found is left to the caller.
def readAliases (c : Collection) (components : AliasGraph → List (List String))
    (aliases : List AliasDef) : Collection :=
  let graph := AliasGraph.ofDefs aliases
  (components graph).foldl (readComponent aliases graph) c

-- Replaces the shell of a type by its declaration.
def readType (c : Collection) : Item → Collection
  | .struct item => c.define item.name (.struct (item.elaborate c.env))
  | .union item => c.define item.name (.union (item.elaborate c.env))
  | .interface item => c.define item.name (.interface (item.elaborate c.env))
  | _ => c

-- Adds a function to those of its name. The name of a type cannot also be a function.
def readFunction (c : Collection) (item : FunctionDef) : Collection :=
  let sig := item.elaborate c.env
  let merged :=
    match c.env.lookupLocal? item.name with
    | none => mergeFunction none sig
    | some (.function bound) => mergeFunction (some bound) sig
    | some _ => none
  match merged with
  | some type => c.define item.name (.function type)
  | none => c.report (.duplicateDeclaration item.name) (some item.span)

def readImpl (c : Collection) (item : ImplDef) : Collection :=
  let reading := item.elaborate c.env
  let reported := c.reportAll reading.problems (some item.span)
  match reading.impl with
  | some impl => { reported with registry := reported.registry.register impl }
  | none => reported

-- Reads a program: the names of types first, so that they may be used in any order, then
-- aliases, types, functions, the built-in implementations and those of the program.
def ofProgram (components : AliasGraph → List (List String)) (program : Program)
    (builtins : Bool) : Collection :=
  let (shells, items) := declareShells {} program
  let aliased := shells.readAliases components (items.filterMap Item.alias?)
  let typed := items.foldl readType aliased
  let called := (items.filterMap Item.function?).foldl readFunction typed
  let served :=
    if builtins then
      { called with registry := called.registry.registerAll (Registry.builtins called.env) }
    else called
  (items.filterMap Item.impl?).foldl readImpl served

end Collection

end Conformance
