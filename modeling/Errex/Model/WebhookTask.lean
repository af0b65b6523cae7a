import Errex.Foundation.Machine
import Errex.Model.Digest
import Errex.Model.Store.Calls

/-!
# The webhook task

`run` of `webhook.rs`, between its awaits, beside the digest task, which fills its channel, and the
triage calls.
-/

namespace Errex.Model.Webhook
open Foundation Store

def WEBHOOK_CHANNEL_CAPACITY : Nat := 64

/-- Where the task waits: for a trigger, for the lookup of its project, or for the answer to a POST. -/
inductive Task where
  | receiving
  | lookingUp (trigger : Trigger)
  | posting (trigger : Trigger) (url : String)
  deriving DecidableEq

structure State where
  db : Db
  channel : List Trigger
  task : Task

def trySend (channel : List Trigger) (trigger : Trigger) : List Trigger :=
  if channel.length < WEBHOOK_CHANNEL_CAPACITY then channel ++ [trigger] else channel

def silenced : IssueStatus → Bool
  | .muted | .ignored => true
  | .unresolved | .resolved => false

inductive Action where
  | digest (w : World) (batch : List Digest.IngestEvent)
  | setStatus (w : World) (issueId : Int) (status : IssueStatus)
  | receive
  | lookUp (w : World)
  | answer (w : World) (status : UInt16)

def step (s : State) : Action → State
  | .digest w batch =>
      let (reply, db) := transact w (upsertBatchWithEvents w.now w.received (batch.map (·.input))) s.db
      { s with db, channel := (Digest.processBatch reply).1.foldl trySend s.channel }
  | .setStatus w issueId status => { s with db := (transact w (Store.setStatus w.now issueId status) s.db).2 }
  | .receive =>
      match s.task, s.channel with
      | .receiving, trigger :: channel =>
          { s with channel, task := if silenced trigger.issue.status then .receiving else .lookingUp trigger }
      | _, _ => s
  | .lookUp w =>
      match s.task with
      | .lookingUp trigger =>
          let (reply, db) := transact w (projectByName w.now trigger.issue.project) s.db
          let url :=
            match reply with
            | .ok (some project) => project.webhookUrl
            | .ok none => none
            | .error _ => none
          { s with
            db
            task :=
              match url with
              | some url => .posting trigger url
              | none => .receiving }
      | _ => s
  | .answer w status =>
      match s.task with
      | .posting trigger _ =>
          { s with
            db := (bestEffort w (recordWebhookAttempt w.now trigger.issue.project status) s.db).2
            task := .receiving }
      | _ => s

end Errex.Model.Webhook
