import NodeRpc.Report
import NodeRpc.Calls.Run
import NodeRpc.Client.Summary
import NodeRpc.Client.TypedCall
import NodeRpc.Duplex.Run
import NodeRpc.Lookup.Run
import NodeRpc.Proofs.Calls.Closing
import NodeRpc.Proofs.Calls.Rejections
import NodeRpc.Proofs.Calls.Withdrawal
import NodeRpc.Proofs.Link.Cancellations
import NodeRpc.Proofs.Link.Consistency
import NodeRpc.Proofs.Link.Farewells
import NodeRpc.Proofs.Link.Lifetimes
import NodeRpc.Proofs.Link.Routes
import NodeRpc.Proofs.Link.Settling
import NodeRpc.Proofs.Lookup.Stranding
import NodeRpc.Proofs.Session.InOrder
import NodeRpc.Proofs.Session.Noise
import NodeRpc.Proofs.Session.Stopped
import NodeRpc.Session.Run
import NodeRpc.Simulation.Queries
import NodeRpc.Simulation.ScriptedClient
import NodeRpc.Simulation.Shared
import NodeRpc.Socket.Basic
import NodeRpc.Proofs.Lookup.SingleFlight
import NodeRpc.Proofs.Lookup.Batches
import NodeRpc.Proofs.Json.Canonical
import NodeRpc.Proofs.Json.Nesting
import NodeRpc.Proofs.Json.Alike
import NodeRpc.Proofs.Lookup.Identity
import NodeRpc.Proofs.Duplex.Sharing
import NodeRpc.Proofs.Lookup.Keys
import NodeRpc.Proofs.Lookup.Loading
import NodeRpc.Proofs.Lookup.Returns
import NodeRpc.Proofs.Lookup.Wire
import NodeRpc.Proofs.Lookup.Served
import NodeRpc.Proofs.Http.Agreement
import NodeRpc.Proofs.Frame.Kinds
import NodeRpc.Proofs.Http.Failures
import NodeRpc.Proofs.Http.Batches
import NodeRpc.Proofs.Lookup.Grouping
import NodeRpc.Proofs.Lookup.Statuses
import NodeRpc.Proofs.Lookup.Entries
import NodeRpc.Proofs.Lookup.Exchanges
import NodeRpc.Proofs.Lookup.OwnerChains
import NodeRpc.Proofs.Client.Batches
import NodeRpc.Proofs.Json.Numbers
import NodeRpc.Proofs.Json.Moves
import NodeRpc.Proofs.Json.Reading
import NodeRpc.Proofs.Json.Entries
import NodeRpc.Proofs.Frame.RoundTrips
import NodeRpc.Proofs.Frame.Routing
import NodeRpc.Proofs.Lookup.Projections
