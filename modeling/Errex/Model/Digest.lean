import Errex.Model.Fingerprint
import Errex.Model.Store.Issues
import Errex.Model.View

/-!
# The digest task

`digest.rs`: the records that the ingest route hands over, and what a batch of them writes, sends to
the webhook task and broadcasts.
-/

namespace Errex.Model
open Foundation Store

namespace Webhook

inductive TriggerKind where
  | newIssue
  | regression
  deriving DecidableEq

structure Trigger where
  issue : Issue
  kind : TriggerKind
  deriving DecidableEq

end Webhook

namespace Digest
open Webhook

def BATCH_SIZE : Nat := 16

structure IngestEvent where
  project : String
  fingerprint : String
  title : String
  level : Option String
  culprit : Option String
  exceptionType : String
  firstFrame : String
  receivedAt : UtcNow
  eventId : String
  payload : String

def levelStr : Level → String
  | .debug => "debug"
  | .info => "info"
  | .warning => "warning"
  | .error => "error"
  | .fatal => "fatal"

def prepare (toJson : Event → String) (receivedAt : UtcNow) (project : String) (event : Event) : IngestEvent where
  project := project
  fingerprint := Fingerprint.derive event
  title := event.title
  level := event.level.map levelStr
  culprit := (event.primaryException.bind (·.firstFrame)).map fun f =>
    f.function.getD "?" ++ " in " ++ f.filename.getD "?"
  exceptionType := (event.primaryException.bind (·.ty)).getD "<no exception>"
  firstFrame := ((event.primaryException.bind (·.firstFrame)).map fun f =>
    f.function.getD "?" ++ ":" ++ toString (f.lineno.getD 0)).getD "<no frames>"
  receivedAt := receivedAt
  eventId := event.eventId.simple
  payload := toJson event

def IngestEvent.input (rec : IngestEvent) : BatchUpsertInput where
  project := rec.project
  fp := rec.fingerprint
  title := rec.title
  culprit := rec.culprit
  level := rec.level
  now := rec.receivedAt.instant
  eventId := rec.eventId
  payload := rec.payload

def trigger (result : UpsertResult) : Option Trigger :=
  if result.created then some ⟨result.issue, .newIssue⟩
  else if result.regressed then some ⟨result.issue, .regression⟩
  else none

def message (result : UpsertResult) : ServerMessage :=
  if result.created then .issueCreated result.issue else .issueUpdated result.issue

/-- What `process_batch` sends to the webhook task and broadcasts once the store has answered. -/
def processBatch : Except DaemonError (List UpsertResult) → List Trigger × List ServerMessage
  | .ok results => (results.filterMap trigger, results.map message)
  | .error _ => ([], [])

end Digest

end Errex.Model
