import Errex.Model.Live
import Errex.Model.Spa.EventStream

/-!
# Arrivals across the wire

The live connections with what a client counts: `handle` of `ws.ts` as it calls the event stream, every message with
what it was sent for.
-/

namespace Errex.Model.Arrivals
open Foundation Store Spa.EventStream

/-- What a message was sent for: a new connection, an event that was digested, or a `PUT /status`. -/
inductive Origin where
  | greeting
  | digested (event : Digest.IngestEvent)
  | triaged

structure Sent where
  origin : Origin
  message : ServerMessage

structure Since where
  recorded : List (Int × ℚ)
  delivered : List Sent

structure Client where
  loaded : Bool
  queue : List Sent
  view : View
  stream : EventStreamStore
  since : Option Since

def Client.record (c : Client) (when : ℚ) (sent : Sent) (issueId : Int) : Client :=
  { c with
    stream := c.stream.record issueId when
    since := c.since.map fun since => ⟨since.recorded ++ [(issueId, when)], since.delivered ++ [sent]⟩ }

def Client.handle (c : Client) (when : ℚ) (sent : Sent) : Client :=
  let c := { c with view := c.view.handle sent.message }
  match sent.message with
  | .hello _ => { c with since := c.since.map fun since => { since with delivered := since.delivered ++ [sent] } }
  | .snapshot _ => { c with stream := c.stream.clear, since := some ⟨[], []⟩ }
  | .issueCreated issue => c.record when sent issue.id
  | .issueUpdated issue => c.record when sent issue.id

structure Hub where
  db : Db
  clients : List Client

def Hub.send (hub : Hub) (messages : List Sent) : Hub :=
  { hub with clients := hub.clients.map fun c => { c with queue := c.queue ++ messages } }

inductive Action where
  | digest (now : UtcNow) (received : Nat → SqliteTime) (batch : List Digest.IngestEvent)
  | putStatus (now : UtcNow) (issueId : Int) (status : IssueStatus)
  | subscribe (view : View) (stream : EventStreamStore)
  | load (client : Nat) (now : UtcNow)
  | consume (client : Nat) (when : ℚ)

def digested (batch : List Digest.IngestEvent) (results : List UpsertResult) : List Sent :=
  (batch.zip results).map fun (event, result) => ⟨.digested event, Digest.message result⟩

def step (hub : Hub) : Action → Hub
  | .digest now received batch =>
      match upsertBatchWithEvents now received (batch.map (·.input)) hub.db with
      | .ok (results, db) => { hub with db }.send (digested batch results)
      | .error _ => hub
  | .putStatus now issueId status =>
      match setStatus now issueId status hub.db with
      | .ok (issue, db) => { hub with db }.send [⟨.triaged, .issueUpdated issue⟩]
      | .error _ => hub
  | .subscribe view stream => { hub with clients := hub.clients ++ [⟨false, [], view, stream, none⟩] }
  | .load client now =>
      match hub.clients[client]?, loadIssues now hub.db with
      | some ⟨false, queue, view, stream, since⟩, .ok (issues, _) =>
          let greeting := (Live.greeting issues).map (Sent.mk .greeting)
          { hub with clients := hub.clients.set client ⟨true, greeting ++ queue, view, stream, since⟩ }
      | _, _ => hub
  | .consume client when =>
      match hub.clients[client]? with
      | some ⟨true, sent :: queue, view, stream, since⟩ =>
          { hub with clients := hub.clients.set client (Client.handle ⟨true, queue, view, stream, since⟩ when sent) }
      | _ => hub

end Errex.Model.Arrivals
