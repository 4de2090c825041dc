import Stepflow.Analytics.Basic
import Stepflow.Analytics.Recorder
import Stepflow.Arguments
import Stepflow.Checkout.Cart
import Stepflow.Checkout.Shop
import Stepflow.Condition
import Stepflow.Datum
import Stepflow.Datum.Items
import Stepflow.Datum.Key
import Stepflow.Datum.Marked
import Stepflow.Engine.Basic
import Stepflow.Engine.Call
import Stepflow.Engine.Control
import Stepflow.Engine.Course
import Stepflow.Engine.Delivery
import Stepflow.Engine.Observer
import Stepflow.Engine.Task
import Stepflow.Engine.Turn
import Stepflow.Execution
import Stepflow.Failure
import Stepflow.FieldName
import Stepflow.Fields
import Stepflow.Interaction.Basic
import Stepflow.Interaction.Client
import Stepflow.Interaction.Reference
import Stepflow.Interaction.Transport
import Stepflow.Json.Basic
import Stepflow.Json.Reader
import Stepflow.Json.Writer
import Stepflow.Lifecycle
import Stepflow.Log
import Stepflow.Number.Basic
import Stepflow.Number.Decimal
import Stepflow.Number.Double
import Stepflow.Number.Reader
import Stepflow.Processing
import Stepflow.Proofs.Bindings
import Stepflow.Proofs.Construction
import Stepflow.Proofs.Decoders
import Stepflow.Proofs.Engine.Acts
import Stepflow.Proofs.Engine.Advance
import Stepflow.Proofs.Engine.Ahead
import Stepflow.Proofs.Engine.Alertness
import Stepflow.Proofs.Engine.Announcing
import Stepflow.Proofs.Engine.Answering
import Stepflow.Proofs.Engine.Broods
import Stepflow.Proofs.Engine.Bystanders
import Stepflow.Proofs.Engine.Calling
import Stepflow.Proofs.Engine.Cancellation
import Stepflow.Proofs.Engine.Chronicle
import Stepflow.Proofs.Engine.Confinement
import Stepflow.Proofs.Engine.Confluence
import Stepflow.Proofs.Engine.Dispatching
import Stepflow.Proofs.Engine.Easing
import Stepflow.Proofs.Engine.Exhaustion
import Stepflow.Proofs.Engine.Fairness
import Stepflow.Proofs.Engine.Fate
import Stepflow.Proofs.Engine.Flushing
import Stepflow.Proofs.Engine.Frame
import Stepflow.Proofs.Engine.Happens
import Stepflow.Proofs.Engine.Interpreter
import Stepflow.Proofs.Engine.Isolation
import Stepflow.Proofs.Engine.Joining
import Stepflow.Proofs.Engine.Ledger
import Stepflow.Proofs.Engine.Lineage
import Stepflow.Proofs.Engine.Mirroring
import Stepflow.Proofs.Engine.Moves
import Stepflow.Proofs.Engine.Narration
import Stepflow.Proofs.Engine.Nudging
import Stepflow.Proofs.Engine.Omitting
import Stepflow.Proofs.Engine.Outline
import Stepflow.Proofs.Engine.Performing
import Stepflow.Proofs.Engine.Places
import Stepflow.Proofs.Engine.Quiescence
import Stepflow.Proofs.Engine.Ranking
import Stepflow.Proofs.Engine.Reasons
import Stepflow.Proofs.Engine.Recovering
import Stepflow.Proofs.Engine.Returning
import Stepflow.Proofs.Engine.Shutdown
import Stepflow.Proofs.Engine.Skipping
import Stepflow.Proofs.Engine.Standing
import Stepflow.Proofs.Engine.Statuses
import Stepflow.Proofs.Engine.Threading
import Stepflow.Proofs.Engine.Times
import Stepflow.Proofs.Engine.Tracking
import Stepflow.Proofs.Engine.Unharmed
import Stepflow.Proofs.Engine.Unnoticed
import Stepflow.Proofs.Engine.Waiting
import Stepflow.Proofs.Engine.Working
import Stepflow.Proofs.Equality
import Stepflow.Proofs.FieldNames
import Stepflow.Proofs.Freezing
import Stepflow.Proofs.Json.Content
import Stepflow.Proofs.Json.Decoding
import Stepflow.Proofs.Json.Grammar
import Stepflow.Proofs.Json.Limits
import Stepflow.Proofs.Json.Reading
import Stepflow.Proofs.Json.RoundTrip
import Stepflow.Proofs.Json.Sameness
import Stepflow.Proofs.Json.SortedText
import Stepflow.Proofs.Json.Tokens
import Stepflow.Proofs.Json.Unambiguity
import Stepflow.Proofs.Navigation
import Stepflow.Proofs.Nodes
import Stepflow.Proofs.Number.Printing
import Stepflow.Proofs.Number.Rounding
import Stepflow.Proofs.Number.Shortest
import Stepflow.Proofs.Number.Value
import Stepflow.Proofs.Overlay
import Stepflow.Proofs.Refusals
import Stepflow.Proofs.Relaying
import Stepflow.Proofs.Responses
import Stepflow.Proofs.Routes
import Stepflow.Proofs.Spelling
import Stepflow.Proofs.Text.Lowering
import Stepflow.Proofs.Text.Utf8
import Stepflow.Proofs.Wire
import Stepflow.Registry
import Stepflow.Report
import Stepflow.Resolver.Basic
import Stepflow.Resolver.Rehearsed
import Stepflow.Script
import Stepflow.Service.Basic
import Stepflow.Service.Identifier
import Stepflow.Service.Interface
import Stepflow.Step
import Stepflow.Text.CaseTable
import Stepflow.Text.Cased
import Stepflow.Text.Digits
import Stepflow.Text.Encoding
import Stepflow.Text.HostName
import Stepflow.Text.LetterCase
import Stepflow.Text.Parts
import Stepflow.Text.Printable
import Stepflow.Text.Quoted
import Stepflow.Text.Utf8
import Stepflow.Transition
import Stepflow.Value.Access
import Stepflow.Value.Basic
import Stepflow.Value.Checked
import Stepflow.Value.Node
import Stepflow.Workflow
