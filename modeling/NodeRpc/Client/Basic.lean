import NodeRpc.Config
import NodeRpc.Registry

/-!
# Clients and graphs

A client is a registry with a commitment; how it reaches its node is up to whoever answers its
calls. A graph adds how many keys it puts into one batch, and resolves entities through the client.
-/

namespace NodeRpc

/-- What a client adds to the calls made through it. -/
structure Client where
  registry : Registry := {}
  commitment : Commitment := .standard

/-- A client through which entities are resolved. -/
structure Graph where
  client : Client
  maxBatchSize : Nat := Config.standardBatchSize

namespace Client

/-- The client of a configuration, if its endpoint is served. -/
def ofConfig (c : Config) : Except CallError Client :=
  c.reach.map fun _ => { commitment := c.commitment }

end Client

namespace Graph

/-- Batches of at most `size` keys; of one key if `size` is zero. -/
def withMaxBatchSize (g : Graph) (size : Nat) : Graph := { g with maxBatchSize := max size 1 }

/-- The graph of a configuration, if its endpoint is served. -/
def ofConfig (c : Config) : Except CallError Graph :=
  (Client.ofConfig c).map fun client => Graph.withMaxBatchSize ⟨client, 0⟩ c.maxBatchSize

end Graph

end NodeRpc
