import Errex.Foundation.Machine
import Errex.Model.Ingest

/-!
# From the ingest route to the tables

The ingest requests, the channel to the digest task, the digest task of `digest.rs` between its
awaits, and the calls that manage projects.
-/

namespace Errex.Model.Pipeline
open Foundation Store Ingest Digest

def INGEST_CHANNEL_CAPACITY : Nat := 256

/-- `buffer` is the batch that the digest task has taken from the channel. -/
structure State where
  shared : Shared
  pool : List (IngestHandler Response)
  buffer : List IngestEvent

def State.initial (route : Route) (requests : List IngestRequest) (db : Db) (limiter : RateLimit.RateLimiter) : State :=
  ⟨⟨db, limiter, []⟩, requests.map (ingestEnvelope route), []⟩

inductive Action where
  | ingest (request : Nat) (w : Surroundings)
  | receive
  | processBatch (w : World)
  | createProject (w : World) (name : String)
  | renameProject (w : World) (old new : String)
  | deleteProject (w : World) (name : String)
  | rotateToken (w : World) (name : String)

/-- `send` waits for a slot of the channel. -/
def blocked (s : State) (request : Nat) : Bool :=
  match s.pool[request]? with
  | some (.call (.send _) _) => decide (INGEST_CHANNEL_CAPACITY ≤ s.shared.channel.length)
  | _ => false

def commit {α : Type} (s : State) (w : World) (tx : Tx α) : State :=
  { s with shared := { s.shared with db := (transact w tx s.shared.db).2 } }

def step (s : State) : Action → State
  | .ingest request w =>
      if blocked s request then s
      else
        let next := System.step execIngest ⟨s.shared, s.pool⟩ (request, w)
        { s with shared := next.state, pool := next.pool }
  | .receive =>
      -- The first record and whatever else is there, up to a batch.
      if s.buffer.isEmpty then
        { s with
          shared := { s.shared with channel := s.shared.channel.drop BATCH_SIZE }
          buffer := s.shared.channel.take BATCH_SIZE }
      else s
  | .processBatch w =>
      -- The batch is dropped if the store reports an error.
      if s.buffer.isEmpty then s
      else { commit s w (upsertBatchWithEvents w.now w.received (s.buffer.map (·.input))) with buffer := [] }
  | .createProject w name => commit s w (Store.createProject w.now w.uuid name)
  | .renameProject w old new => commit s w (Store.renameProject w.now old new)
  | .deleteProject w name => commit s w (Store.deleteProject w.now name)
  | .rotateToken w name => commit s w (Store.rotateToken w.now w.uuid name)

end Errex.Model.Pipeline
