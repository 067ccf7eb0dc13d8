import Conformance.Declaration

namespace Conformance

-- The declarations of the scope at hand, and those of the scopes around it, the
-- nearest first.
structure Environment where
  scope : Bindings Declaration := ∅
  outer : List (Bindings Declaration) := []

namespace Environment

instance : EmptyCollection Environment := ⟨{}⟩

def define (env : Environment) (name : String) (decl : Declaration) : Environment :=
  { env with scope := env.scope.insert name decl }

def lookupLocal? (env : Environment) (name : String) : Option Declaration :=
  env.scope.get? name

-- The nearest scope that binds a name decides.
def lookup? (env : Environment) (name : String) : Option Declaration :=
  (env.scope :: env.outer).findSome? fun scope => scope.get? name

-- Whether a name is declared as a type.
def declaresType (env : Environment) (name : String) : Bool :=
  (env.lookup? name).any fun decl => !decl.isFunction

def lookupInterface? (env : Environment) (name : String) : Option InterfaceDecl :=
  match env.lookup? name with
  | some (.interface decl) => some decl
  | _ => none

def lookupUnion? (env : Environment) (name : String) : Option UnionDecl :=
  match env.lookup? name with
  | some (.union decl) => some decl
  | _ => none

def openScope (env : Environment) : Environment := ⟨∅, env.scope :: env.outer⟩

-- The outermost scope cannot be closed.
def closeScope? (env : Environment) : Option Environment :=
  match env.outer with
  | [] => none
  | scope :: outer => some ⟨scope, outer⟩

end Environment

end Conformance
