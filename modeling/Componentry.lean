import Componentry.Compile
import Componentry.Library.Registry
import Componentry.Proofs.Emission.Totality
import Componentry.Proofs.Execution.Correctness
import Componentry.Proofs.Typing.Soundness
import Componentry.Tree.Literal
import Componentry.Tree.Text
import Componentry.Proofs.Library.RegistrationOrder
import Componentry.Proofs.Bytecode.RoundTrip
import Componentry.Proofs.Resolution.Idempotence
import Componentry.Proofs.Emission.Fields
import Componentry.Proofs.Library.Cycles
import Componentry.Proofs.Library.Ambiguity
import Componentry.Proofs.Resolution.Unambiguous
import Componentry.Proofs.Symbol.MethodIdentity
import Componentry.Proofs.Resolution.Accounts
import Componentry.Proofs.Resolution.Conservation
import Componentry.Proofs.Library.Specificity
import Componentry.Proofs.Binary.Widening
import Componentry.Proofs.Bytecode.PoolGrowth
import Componentry.Proofs.Emission.Gapless
import Componentry.Proofs.Emission.NeededConstants
import Componentry.Proofs.Emission.FloatingLiterals
import Componentry.Proofs.Emission.SlotOrder
import Componentry.Proofs.Resolution.Outline
import Componentry.Proofs.Bytecode.Placement
import Componentry.Proofs.Emission.Capacity
import Componentry.Proofs.Emission.Layout
import Componentry.Proofs.Emission.LocalRanges
import Componentry.Proofs.Library.Exploration
import Componentry.Proofs.Library.ConversionOrder
import Componentry.Proofs.Library.NearestDeclaration
import Componentry.Proofs.Library.Substitution
import Componentry.Proofs.Library.CandidateOrder
import Componentry.Proofs.Library.AtomicRegistration
import Componentry.Proofs.Emission.ResolvableOperands
import Componentry.Proofs.Resolution.ExactTypes
import Componentry.Proofs.Binary.Rounding
import Componentry.Proofs.Emission.WholeNumbers
import Componentry.Proofs.Tree.Arena
import Componentry.Proofs.Symbol.ParameterMixing
import Componentry.Proofs.Symbol.DottedNames
import Componentry.Proofs.Bytecode.PoolHistory
import Componentry.Proofs.Bytecode.Coverage
import Componentry.Proofs.Bytecode.InOrder
