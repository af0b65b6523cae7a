import Errex.Foundation.Machine
import Errex.Model.Digest

/-!
# Live connections

`ws.rs` and the SPAs on its connections: the writers of the issues table, which broadcast what they
have committed, and clients that subscribe to the broadcasts and later get a snapshot.
-/

namespace Errex.Model.Live
open Foundation Store

def CARGO_PKG_VERSION : String := "0.1.0"

/-- A connection, from its subscription on. Messages wait in the subscription until `run` has loaded
the snapshot; then the socket delivers the greeting, the snapshot and the messages in order. -/
structure Client where
  loaded : Bool
  queue : List ServerMessage
  view : View

structure Hub where
  db : Db
  clients : List Client

def Hub.send (hub : Hub) (messages : List ServerMessage) : Hub :=
  { hub with clients := hub.clients.map fun c => { c with queue := c.queue ++ messages } }

def greeting (issues : List Issue) : List ServerMessage := [.hello CARGO_PKG_VERSION, .snapshot issues]

inductive Action where
  | digest (now : UtcNow) (received : Nat → SqliteTime) (batch : List Digest.IngestEvent)
  | putStatus (now : UtcNow) (issueId : Int) (status : IssueStatus)
  | subscribe (view : View)
  | load (client : Nat) (now : UtcNow)
  | consume (client : Nat)

/-- A commit and what it broadcasts are one step, and a transaction that fails is none. -/
def step (hub : Hub) : Action → Hub
  | .digest now received batch =>
      match upsertBatchWithEvents now received (batch.map (·.input)) hub.db with
      | .ok (results, db) => { hub with db }.send (Digest.processBatch (.ok results)).2
      | .error _ => hub
  | .putStatus now issueId status =>
      match setStatus now issueId status hub.db with
      | .ok (issue, db) => { hub with db }.send [.issueUpdated issue]
      | .error _ => hub
  | .subscribe view => { hub with clients := hub.clients ++ [⟨false, [], view⟩] }
  | .load client now =>
      match hub.clients[client]?, loadIssues now hub.db with
      | some ⟨false, queue, view⟩, .ok (issues, _) =>
          { hub with clients := hub.clients.set client ⟨true, greeting issues ++ queue, view⟩ }
      | _, _ => hub
  | .consume client =>
      match hub.clients[client]? with
      | some ⟨true, message :: queue, view⟩ =>
          { hub with clients := hub.clients.set client ⟨true, queue, view.handle message⟩ }
      | _ => hub

end Errex.Model.Live
