import Conformance.Arithmetic
import Conformance.Collection

namespace Conformance

-- A program that has been read, with all that was reported about it so far.
structure Checker where
  env : Environment
  registry : Registry
  options : Options
  diagnostics : List Diagnostic

namespace Checker

-- The components of the aliases are found by a search in depth.
def ofProgram (program : Program) (builtins : Bool) (options : Options) : Checker :=
  let collected := Collection.ofProgram AliasGraph.components program builtins
  ⟨collected.env, collected.registry, options, collected.diagnostics⟩

def resolver (checker : Checker) : Resolver := ⟨checker.env, checker.registry, checker.options⟩

def messages (checker : Checker) : List String := checker.diagnostics.map Diagnostic.message

def report (checker : Checker) (problem : Problem) (node : Option Span) : Checker :=
  { checker with diagnostics := checker.diagnostics ++ [⟨problem, node⟩] }

-- Asks that a type implements an interface, and reports where it does not.
def require (checker : Checker) (subject : Ty) (interface : String) (args : List Ty)
    (node : Option Span) : Bool × Checker :=
  match (checker.resolver.implements subject interface args).problem? with
  | none => (true, checker)
  | some problem => (false, checker.report problem node)

def checkObligations (checker : Checker) (obligations : List Obligation) : Bool × Checker :=
  let found := checker.resolver.evaluate obligations
  (found.isEmpty, { checker with diagnostics := checker.diagnostics ++ found })

-- The result, or nothing known after a report.
def orUnknown (checker : Checker) (result : Except Problem Ty) (node : Option Span) :
    Ty × Checker :=
  match result with
  | .ok type => (type, checker)
  | .error problem => (.unknown, checker.report problem node)

-- The type of a call of the function bound to a name.
def checkCall (checker : Checker) (name : String) (args : List Ty) (node : Option Span) :
    Ty × Checker :=
  let result :=
    match checker.env.lookup? name with
    | some (.function callee) =>
        (checker.resolver.call name callee args).map fun selection => selection.function.result
    | _ => .error (.noMatchingOverload name)
  checker.orUnknown result node

def checkBinary (checker : Checker) (operator : String) (left right : Ty) (node : Option Span) :
    Ty × Checker :=
  checker.orUnknown (Ty.binaryResult operator left right) node

end Checker

end Conformance
