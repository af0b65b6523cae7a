import Errex.Foundation.Table
import Errex.Foundation.Transaction
import Errex.Model.Proto

/-!
# The database schema

Row types of the migrations and the database. Text columns that hold instants keep the text that was
written.
-/

namespace Errex.Model
open Foundation

inductive SqlxError where
  | rowNotFound
  | uniqueViolation
  | foreignKeyViolation
  | other (message : String)
  deriving DecidableEq, Repr

inductive DaemonError where
  | sqlx (error : SqlxError)
  | notFound (what : String)
  | crypto (message : String)
  deriving DecidableEq, Repr

structure IssueRow where
  id : Int
  project : String
  fingerprint : String
  title : String
  culprit : Option String
  level : Option String
  status : String
  eventCount : Int
  firstSeen : String
  lastSeen : String
  deriving DecidableEq

def IssueRow.key (row : IssueRow) : String × String := (row.project, row.fingerprint)

/-- `received_at` is only ever written by the column default `CURRENT_TIMESTAMP`. -/
structure EventRow where
  id : Int
  issueId : Int
  eventId : String
  payload : String
  receivedAt : SqliteTime

structure ProjectRow where
  name : String
  token : String
  createdAt : String
  lastUsedAt : Option String
  webhookUrl : Option String
  lastWebhookStatus : Option Int
  lastWebhookAt : Option String
  deriving DecidableEq

inductive Role where
  | admin
  | viewer
  deriving DecidableEq, Repr

/-- `role` is one of the two texts that the column's `CHECK` admits. -/
structure UserRow where
  username : String
  passwordHash : String
  role : Role
  createdAt : String
  lastLoginAt : Option String
  lastLoginIp : Option String
  deactivatedAt : Option String
  deriving DecidableEq

structure SessionRow where
  id : String
  username : String
  createdAt : String
  lastSeenAt : String
  ip : Option String
  userAgent : Option String
  deriving DecidableEq

structure AttemptRow where
  username : Option String
  ip : String
  ts : String
  success : Bool
  deriving DecidableEq

structure RetentionSettings where
  eventsPerIssueMax : Int64
  issuesPerProjectMax : Int64
  eventRetentionDays : Int64
  deriving DecidableEq

/-- The tables, with the largest id that each `AUTOINCREMENT` has given out. -/
structure Db where
  issues : Table IssueRow (String × String) IssueRow.key
  issueSeq : Int
  events : Table EventRow String EventRow.eventId
  eventSeq : Int
  projects : Table ProjectRow String ProjectRow.name
  users : Table UserRow String UserRow.username
  sessions : Table SessionRow String SessionRow.id
  attempts : List AttemptRow
  retention : Option RetentionSettings

def Db.empty : Db where
  issues := .empty
  issueSeq := 0
  events := .empty
  eventSeq := 0
  projects := .empty
  users := .empty
  sessions := .empty
  attempts := []
  retention := some ⟨0, 0, 0⟩

/-- A transaction of sqlx: an error rolls everything back. -/
abbrev Tx (α : Type) := Transaction Db DaemonError α

abbrev Tx.fetchOne {α : Type} (query : Db → Option α) : Tx α :=
  Transaction.fetchOne (.sqlx .rowNotFound) query

end Errex.Model
