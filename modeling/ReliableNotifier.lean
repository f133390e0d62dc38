import ReliableNotifier.Library.Table
import ReliableNotifier.Library.Run
import ReliableNotifier.Library.Interleaving
import ReliableNotifier.Library.Json.Grammar
import ReliableNotifier.Library.Json.Parser
import ReliableNotifier.Library.Json.Text
import ReliableNotifier.Library.Json.Decode
import ReliableNotifier.Library.Json.Token
import ReliableNotifier.Library.Json.Marshal
import ReliableNotifier.Library.Netip
import ReliableNotifier.Library.GoStrings
import ReliableNotifier.Library.SortedMap
import ReliableNotifier.Library.HttpHeader
import ReliableNotifier.Library.Framing
import ReliableNotifier.Library.GoInt
import ReliableNotifier.Library.Transaction
import ReliableNotifier.Schema
import ReliableNotifier.Store.Submit
import ReliableNotifier.Store.Outbox
import ReliableNotifier.Store.Worker
import ReliableNotifier.Store.Maintenance
import ReliableNotifier.Store.Operation
import ReliableNotifier.Lifecycle.Integrity
import ReliableNotifier.Lifecycle.Dossier
import ReliableNotifier.Lifecycle.Moves
import ReliableNotifier.Lifecycle.Automaton
import ReliableNotifier.Lifecycle.History
import ReliableNotifier.Lifecycle.Events
import ReliableNotifier.Lifecycle.Window
import ReliableNotifier.Lifecycle.Constraints
import ReliableNotifier.Lifecycle.Identity
import ReliableNotifier.Progress.Repair
import ReliableNotifier.Progress.Cycle
import ReliableNotifier.Progress.Phases
import ReliableNotifier.Progress.Stranding
import ReliableNotifier.Progress.Convergence
import ReliableNotifier.Progress.Commutation
import ReliableNotifier.Progress.Retention
import ReliableNotifier.Worker.Result
import ReliableNotifier.Worker.RetryTiming
import ReliableNotifier.Worker.Process
import ReliableNotifier.Worker.Limiter
import ReliableNotifier.Worker.Capacity
import ReliableNotifier.Worker.Bookings
import ReliableNotifier.Worker.Tightening
import ReliableNotifier.System.Model
import ReliableNotifier.System.Execution
import ReliableNotifier.System.Claims
import ReliableNotifier.System.Success
import ReliableNotifier.System.Leases
import ReliableNotifier.System.Publication
import ReliableNotifier.System.Batches
import ReliableNotifier.System.Signals
import ReliableNotifier.System.Acknowledge
import ReliableNotifier.System.Dispatch
import ReliableNotifier.System.Requests
import ReliableNotifier.Admission.Model
import ReliableNotifier.Admission.Execution
import ReliableNotifier.Admission.Interference
import ReliableNotifier.Admission.Transactions
import ReliableNotifier.Admission.Exclusion
import ReliableNotifier.Admission.Idempotency
import ReliableNotifier.Admission.Backlog
import ReliableNotifier.Rabbit.PublishSignal
import ReliableNotifier.Rabbit.Confirms
import ReliableNotifier.Wire.UUID
import ReliableNotifier.Wire.Signal
import ReliableNotifier.Wire.SignalSchema
import ReliableNotifier.Wire.RoundTrip
import ReliableNotifier.Api.Headers
import ReliableNotifier.Api.Submit
import ReliableNotifier.Api.Canonical
import ReliableNotifier.Api.RequestHash
import ReliableNotifier.Api.DecodeHeaders
import ReliableNotifier.Outbound.Headers
import ReliableNotifier.Outbound.Agreement
import ReliableNotifier.Outbound.Sender
import ReliableNotifier.Outbound.Boundary
import ReliableNotifier.Outbound.Embedding
import ReliableNotifier.Outbound.Injection
import ReliableNotifier.Store.Bootstrap
import ReliableNotifier.Store.Answers
import ReliableNotifier.Store.Agreement
import ReliableNotifier.Library.Amqp
import ReliableNotifier.Library.Broker
import ReliableNotifier.Rabbit.Topology
import ReliableNotifier.System.Deployment
import ReliableNotifier.System.Conservation
import ReliableNotifier.System.DeadLetters
import ReliableNotifier.Api.Server
import ReliableNotifier.Api.Execution
import ReliableNotifier.Api.Contract
import ReliableNotifier.Api.Visibility
import ReliableNotifier.Api.Content
import ReliableNotifier.Api.Body
import ReliableNotifier.Runtime.Shutdown
import ReliableNotifier.Runtime.Publisher
import ReliableNotifier.Runtime.Metrics
import ReliableNotifier.Worker.Waiting
