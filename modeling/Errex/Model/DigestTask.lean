import Errex.Foundation.Machine
import Errex.Model.Digest
import Errex.Model.Store.Calls

/-!
# The digest task

`run` of `digest.rs`, between its awaits, beside the senders of its channel.
-/

namespace Errex.Model.Digest
open Foundation Store

/-- Where `run` stands: before `recv`, in the drain, in `process_batch`, or behind its loop. -/
inductive Stage where
  | receiving
  | draining
  | processing
  | exited
  deriving DecidableEq

structure Round where
  batch : List IngestEvent
  answer : Except DaemonError (List UpsertResult)
  messages : List ServerMessage

structure State where
  db : Db
  channel : List IngestEvent
  closed : Bool
  stage : Stage
  buffer : List IngestEvent
  sent : List IngestEvent
  handed : List (List IngestEvent)
  rounds : List Round

def State.initial (db : Db) : State := ⟨db, [], false, .receiving, [], [], [], []⟩

inductive Action where
  | send (event : IngestEvent)
  | close
  | recv
  | tryRecv
  | answer (w : World)
  | elsewhere (db : Db)

def hand (s : State) : State :=
  if s.buffer.isEmpty then { s with stage := .receiving }
  else { s with stage := .processing, handed := s.handed ++ [s.buffer] }

def broadcasts (buffer : List IngestEvent) : Except DaemonError (List UpsertResult) → List ServerMessage
  | .ok results => (buffer.zip results).map fun (_, result) => message result
  | .error _ => []

def step (capacity : Nat) (s : State) : Action → State
  | .send event =>
      -- `send` waits for a slot, and fails once the receiver is gone.
      if s.closed ∨ s.stage = .exited ∨ capacity ≤ s.channel.length then s
      else { s with channel := s.channel ++ [event], sent := s.sent ++ [event] }
  | .close => { s with closed := true }
  | .recv =>
      match s.stage, s.channel with
      | .receiving, first :: channel => { s with channel, buffer := s.buffer ++ [first], stage := .draining }
      | .receiving, [] => if s.closed then { s with stage := .exited } else s
      | _, _ => s
  | .tryRecv =>
      match s.stage with
      | .draining =>
          if s.buffer.length < BATCH_SIZE then
            match s.channel with
            | event :: channel => { s with channel, buffer := s.buffer ++ [event] }
            | [] => hand s
          else hand s
      | _ => s
  | .answer w =>
      match s.stage with
      | .processing =>
          let (reply, db) := transact w (upsertBatchWithEvents w.now w.received (s.buffer.map (·.input))) s.db
          { s with
            db
            buffer := []
            stage := .receiving
            rounds := s.rounds ++ [⟨s.buffer, reply, broadcasts s.buffer reply⟩] }
      | _ => s
  | .elsewhere db => { s with db }

end Errex.Model.Digest
