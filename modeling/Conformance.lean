import Conformance.AliasGraph
import Conformance.Arithmetic
import Conformance.Assignability
import Conformance.Bindings
import Conformance.Checker
import Conformance.Collection
import Conformance.Constraint
import Conformance.Declaration
import Conformance.Diagnostic
import Conformance.Elaboration
import Conformance.Environment
import Conformance.Implementation
import Conformance.Integer
import Conformance.Methods
import Conformance.Obligation
import Conformance.Outcome
import Conformance.Overload
import Conformance.Program
import Conformance.Registry
import Conformance.Resolution
import Conformance.Scalar
import Conformance.Scope
import Conformance.SelfPattern
import Conformance.Specificity
import Conformance.Text
import Conformance.Ty.Basic
import Conformance.Ty.Equivalence
import Conformance.Ty.Matching
import Conformance.Ty.Printer
import Conformance.Ty.Substitution
import Conformance.Ty.Traits
import Conformance.TypeExpr
import Conformance.Proofs.LabelSet
import Conformance.Proofs.Selection
import Conformance.Proofs.SelectionOrder
import Conformance.Proofs.Exploration
import Conformance.Proofs.Completion
import Conformance.Proofs.Soundness
import Conformance.Proofs.RegistryOrder
import Conformance.Proofs.Duplicates
import Conformance.Proofs.GoalStack
import Conformance.Proofs.Instantiation
import Conformance.Proofs.AliasView
import Conformance.Proofs.AliasMatching
import Conformance.Proofs.AliasInstances
import Conformance.Proofs.AliasTransparency
import Conformance.Proofs.Vocabulary
import Conformance.Proofs.MatchedParts
import Conformance.Proofs.Legibility
import Conformance.Proofs.GoalIdentity
import Conformance.Proofs.AliasReach
import Conformance.Proofs.AliasOrder
import Conformance.Proofs.DeclarationFaces
import Conformance.Proofs.AliasReading
import Conformance.Proofs.DeclarationOrder
import Conformance.Proofs.WhereOrder
import Conformance.Proofs.DepthLimit
import Conformance.Proofs.ObligationChecks
import Conformance.Proofs.BlanketTargets
import Conformance.Proofs.ReadingPhases
import Conformance.Proofs.BareTargets
import Conformance.Proofs.ClosedImplementations
import Conformance.Proofs.AliasCycles
import Conformance.Proofs.SelfMeaning
import Conformance.Proofs.RepeatedSignatures
import Conformance.Proofs.Precedence
import Conformance.Proofs.UserPrecedence
import Conformance.Proofs.MatchedNames
import Conformance.Proofs.InterfaceParameters
import Conformance.Proofs.NestingDepth
import Conformance.Proofs.PriorityPairs
import Conformance.Proofs.Coverage
import Conformance.Proofs.InstantiatedTargets
import Conformance.Proofs.FirstFit
import Conformance.Proofs.UnionOrder
import Conformance.Proofs.SettledTypes
import Conformance.Proofs.SharedParameters
import Conformance.Proofs.UnionsAsSets
import Conformance.Proofs.ConcreteTypes
import Conformance.Proofs.OverloadChoice
import Conformance.Proofs.InterfaceArguments
import Conformance.Proofs.BoundNames
import Conformance.Proofs.CallResults
import Conformance.Proofs.TypeOutlines
import Conformance.Proofs.OverloadSets
import Conformance.Proofs.RenamedParameters
import Conformance.Proofs.PatternPlaceholders
import Conformance.Proofs.ConstructorPatterns
import Conformance.Proofs.FirstDeclarations
import Conformance.Proofs.RegisteredBlocks
import Conformance.Proofs.HoistedClauses
import Conformance.Proofs.ComposedSubstitutions
import Conformance.Proofs.IntegerRanges
import Conformance.Proofs.NearEquivalence
import Conformance.Proofs.GrowingSubstitutions
