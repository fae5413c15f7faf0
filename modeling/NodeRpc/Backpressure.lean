import NodeRpc.Json.Decode

/-!
# Backpressure

Every subscription buffers a bounded number of notifications for its consumer. The policy says what
becomes of one more.
-/

namespace NodeRpc

/-- What happens to a notification whose subscription has a full buffer. -/
inductive Backpressure where
  /-- It waits for the consumer, and all that comes after it on the connection waits too. -/
  | pauseReads
  /-- It is dropped. -/
  | dropNewest
  deriving DecidableEq, Inhabited

namespace Backpressure

/-- The policy that is used where none is asked for. -/
def standard : Backpressure := .pauseReads

/-- The policy of that name. -/
def ofName? : String → Option Backpressure
  | "pauseReads" => some .pauseReads
  | "dropNewest" => some .dropNewest
  | _ => none

/-- Reads a policy. -/
def ofJson? (v : Json) : Option Backpressure := v.name?.bind ofName?

end Backpressure

end NodeRpc
