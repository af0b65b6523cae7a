import Errex.Foundation.Broadcast
import Errex.Model.Live

/-!
# Connections that lag

The fan-out of `main.rs` and `ws.rs` with its bound: each connection takes messages from the broadcast channel one by one,
and one that falls behind misses the oldest.
-/

namespace Errex.Model.Fanout
open Foundation Store

def FANOUT_CHANNEL_CAPACITY : Nat := 64

/-- A connection from its subscription on, at its position in the channel. What `run` has written waits in the socket.
`taken` is what it has taken from the channel so far, with whether it got it. -/
structure Client where
  loaded : Bool
  next : Nat
  socket : List ServerMessage
  view : View
  taken : List (ServerMessage × Bool)

structure Hub where
  db : Db
  fanout : Broadcast ServerMessage
  clients : List Client
  wsLaggedTotal : Nat
  sent : List ServerMessage

def Hub.initial (db : Db) : Hub := ⟨db, .new FANOUT_CHANNEL_CAPACITY, [], 0, []⟩

def Hub.send (hub : Hub) (messages : List ServerMessage) : Hub :=
  { hub with fanout := messages.foldl Broadcast.send hub.fanout, sent := hub.sent ++ messages }

inductive Action where
  | digest (now : UtcNow) (received : Nat → SqliteTime) (batch : List Digest.IngestEvent)
  | putStatus (now : UtcNow) (issueId : Int) (status : IssueStatus)
  | subscribe (view : View)
  | load (client : Nat) (now : UtcNow)
  | recv (client : Nat)
  | consume (client : Nat)

/-- One turn of the loop of `run` at `fanout.recv()`. -/
def recv (hub : Hub) (client : Nat) (c : Client) : Hub :=
  match hub.fanout.recv c.next with
  | (.message m, next) =>
      let c := { c with next, socket := c.socket ++ [m], taken := c.taken ++ [(m, true)] }
      { hub with clients := hub.clients.set client c }
  | (.lagged skipped, next) =>
      let missed := (hub.sent.drop c.next).take skipped
      let c := { c with next, taken := c.taken ++ missed.map (·, false) }
      { hub with clients := hub.clients.set client c, wsLaggedTotal := hub.wsLaggedTotal + skipped }
  | (.empty, _) => hub

def step (hub : Hub) : Action → Hub
  | .digest now received batch =>
      match upsertBatchWithEvents now received (batch.map (·.input)) hub.db with
      | .ok (results, db) => { hub with db }.send (Digest.processBatch (.ok results)).2
      | .error _ => hub
  | .putStatus now issueId status =>
      match setStatus now issueId status hub.db with
      | .ok (issue, db) => { hub with db }.send [.issueUpdated issue]
      | .error _ => hub
  | .subscribe view => { hub with clients := hub.clients ++ [⟨false, hub.fanout.pos, [], view, []⟩] }
  | .load client now =>
      match hub.clients[client]?, loadIssues now hub.db with
      | some c, .ok (issues, _) =>
          if c.loaded then hub
          else { hub with clients := hub.clients.set client { c with loaded := true, socket := Live.greeting issues } }
      | _, _ => hub
  | .recv client =>
      match hub.clients[client]? with
      | some c => if c.loaded then recv hub client c else hub
      | none => hub
  | .consume client =>
      match hub.clients[client]? with
      | some ⟨true, next, m :: socket, view, taken⟩ =>
          { hub with clients := hub.clients.set client ⟨true, next, socket, view.handle m, taken⟩ }
      | _ => hub

end Errex.Model.Fanout
