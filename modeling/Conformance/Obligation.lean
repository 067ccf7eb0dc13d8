import Conformance.Ty.Printer
import Conformance.Ty.Substitution

namespace Conformance

-- A demand that a subject implements an interface, made by an owner for one of its
-- parameters.
structure Obligation where
  owner : String
  param : String
  constraint : Ty
  subject : Ty
  context : String := ""
  node : Option Span := none
deriving DecidableEq

namespace Obligation

def substitute (obligation : Obligation) (s : Substitution) : Obligation :=
  { obligation with
    constraint := obligation.constraint.substitute s
    subject := obligation.subject.substitute s }

-- Obligations with the same key constrain an implementation in the same way.
def key (obligation : Obligation) : String :=
  obligation.param ++ "->" ++ obligation.constraint.render

-- What an obligation is called in messages.
def place (obligation : Obligation) : String :=
  let plain := obligation.owner ++ " constraint on " ++ obligation.param
  if obligation.context.isEmpty then plain else plain ++ " (" ++ obligation.context ++ ")"

-- A reason followed by the context of the obligation, if there is one.
def inContext (obligation : Obligation) (reason : String) : String :=
  if obligation.context.isEmpty then reason else reason ++ " (" ++ obligation.context ++ ")"

-- One obligation for each bound of a parameter, then one for each bound in a
-- where-clause.
def ofClauses (owner : String) (generics : List (TypeParam Ty)) (wheres : List (WhereClause Ty))
    (node : Option Span) : List Obligation :=
  let ofBounds (param : String) (subject : Ty) (bounds : List Ty) : List Obligation :=
    bounds.map fun constraint =>
      { owner := owner, param := param, constraint := constraint, subject := subject, node := node }
  (generics.flatMap fun generic => ofBounds generic.name (.param generic.name) generic.bounds) ++
    wheres.flatMap fun clause => ofBounds clause.param clause.subject clause.bounds

end Obligation

end Conformance
