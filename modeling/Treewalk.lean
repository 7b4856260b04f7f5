import Treewalk.Evaluation.Basic
import Treewalk.Evaluation.Binding
import Treewalk.Evaluation.Branching
import Treewalk.Evaluation.Console
import Treewalk.Evaluation.Evaluate
import Treewalk.Evaluation.Expression
import Treewalk.Evaluation.Invocation
import Treewalk.Evaluation.Object
import Treewalk.Evaluation.Packaging
import Treewalk.Evaluation.Recovery
import Treewalk.Evaluation.Scheduling
import Treewalk.Exit
import Treewalk.Fault
import Treewalk.Interpreter
import Treewalk.LogEntry
import Treewalk.Machine
import Treewalk.ModuleShelf
import Treewalk.Number.Decimal
import Treewalk.Number.Numeral
import Treewalk.Number.Remainder
import Treewalk.Number.Rendering
import Treewalk.Program.Equality
import Treewalk.Program.Node
import Treewalk.Proofs.Accounts
import Treewalk.Proofs.Adoption
import Treewalk.Proofs.Ascent
import Treewalk.Proofs.Assignment
import Treewalk.Proofs.Attempts
import Treewalk.Proofs.Balance
import Treewalk.Proofs.Chains
import Treewalk.Proofs.Congruence
import Treewalk.Proofs.Constructs
import Treewalk.Proofs.Containment
import Treewalk.Proofs.Copying
import Treewalk.Proofs.Custody
import Treewalk.Proofs.Declaration
import Treewalk.Proofs.DepthLimit
import Treewalk.Proofs.Discipline
import Treewalk.Proofs.Disclosure
import Treewalk.Proofs.Doubles
import Treewalk.Proofs.Enclosure
import Treewalk.Proofs.Exposure
import Treewalk.Proofs.Growth
import Treewalk.Proofs.Hosting
import Treewalk.Proofs.Interruption
import Treewalk.Proofs.Isolation
import Treewalk.Proofs.LeadingNumber
import Treewalk.Proofs.Ledger
import Treewalk.Proofs.Listening
import Treewalk.Proofs.Locality
import Treewalk.Proofs.MethodFrame
import Treewalk.Proofs.Mirroring
import Treewalk.Proofs.Nesting
import Treewalk.Proofs.NumberText
import Treewalk.Proofs.NumeralGrammar
import Treewalk.Proofs.Outbound
import Treewalk.Proofs.Ownership
import Treewalk.Proofs.Parting
import Treewalk.Proofs.Parts
import Treewalk.Proofs.Progression
import Treewalk.Proofs.Provenance
import Treewalk.Proofs.Regime
import Treewalk.Proofs.Resumption
import Treewalk.Proofs.Rounding
import Treewalk.Proofs.Seclusion
import Treewalk.Proofs.SelfBinding
import Treewalk.Proofs.Seniority
import Treewalk.Proofs.Shape
import Treewalk.Proofs.Signalling
import Treewalk.Proofs.Splicing
import Treewalk.Proofs.StoreRegime
import Treewalk.Proofs.StreamFailure
import Treewalk.Proofs.Termination
import Treewalk.Proofs.Tracing
import Treewalk.Proofs.TypedEquality
import Treewalk.Proofs.TypedInput
import Treewalk.Proofs.Unaware
import Treewalk.Proofs.Variants
import Treewalk.Proofs.Vicinity
import Treewalk.Schedule
import Treewalk.Session.Basic
import Treewalk.Session.Inspection
import Treewalk.Session.Running
import Treewalk.Store.Basic
import Treewalk.Store.Chain
import Treewalk.Store.Release
import Treewalk.Store.Scope
import Treewalk.Stream
import Treewalk.Text.Blank
import Treewalk.Text.Line
import Treewalk.Text.Printable
import Treewalk.Text.Quoted
import Treewalk.Text.Utf8
import Treewalk.Value.Basic
import Treewalk.Value.Operator
import Treewalk.Value.Rendering
