import Errex.Foundation.Process
import Errex.Model.Store.Accounts

/-!
# Calls of the store

The awaited calls of the daemon's tasks, one atomic step each, and what they do to the database.
Besides the store there are the clock, the random sources and argon2, whose answers a `World` picks.
-/

namespace Errex.Model
open Foundation Store

/-- A failure before the statements take effect, or one reported after they did. -/
inductive Fault where
  | before (error : DaemonError)
  | after (error : DaemonError)

structure World where
  now : UtcNow
  received : Nat → SqliteTime
  uuid : Uuid
  uuid' : Uuid
  fault : Option Fault

/-- The argon2 crate: a hash under a salt, and the check of a password against a stored hash. -/
structure Argon2 where
  hashPassword : Uuid → String → Except String String
  verifyPassword : String → String → Bool

inductive Call where
  | upsertIssue (input : UpsertInput)
  | upsertBatchWithEvents (batch : List BatchUpsertInput)
  | setStatus (issueId : Int) (status : IssueStatus)
  | purgeExcessEventsPerIssue (max : Int64)
  | purgeExcessIssuesPerProject (max : Int64)
  | purgeEventsOlderThan (cutoff : DateTime)
  | createProject (name : String)
  | projectByName (name : String)
  | setProjectWebhook (name : String) (url : Option String)
  | deleteProject (name : String)
  | renameProject (old new : String)
  | getRetentionSettings
  | setRetentionSettings (settings : RetentionSettings)
  | userCount
  | createUser (username passwordHash : String) (role : Role)
  | getUser (username : String)
  | getUserPasswordHash (username : String)
  | setUserPassword (username passwordHash : String)
  | setUserRole (username : String) (role : Role)
  | setUserDeactivated (username : String) (deactivated : Bool)
  | deleteUser (username : String)
  | touchUserLogin (username : String) (ip : Option String)
  | countActiveAdmins
  | createSession (id username : String) (ip userAgent : Option String)
  | sessionForId (id : String)
  | touchSession (id : String)
  | revokeSession (id : String)
  | revokeUserSessions (username : String)
  | purgeSessionsIdleSince (cutoff : DateTime)
  | recordAttempt (username : Option String) (ip : String) (success : Bool)
  | countRecentFailuresForUsername (username : String) (since : DateTime)
  | countRecentFailuresForIp (ip : String) (since : DateTime)
  | pruneAuthAttemptsOlderThan (cutoff : DateTime)
  | utcNow
  | generateSessionId
  | hashPassword (plain : String)
  | verifyPassword (storedHash plain : String)

namespace Call

/-- What a call answers. The best-effort writes log their errors and answer nothing. -/
def Reply : Call → Type
  | .upsertIssue _ => Except DaemonError UpsertResult
  | .upsertBatchWithEvents _ => Except DaemonError (List UpsertResult)
  | .setStatus _ _ => Except DaemonError Issue
  | .purgeExcessEventsPerIssue _ => Except DaemonError Nat
  | .purgeExcessIssuesPerProject _ => Except DaemonError Nat
  | .purgeEventsOlderThan _ => Except DaemonError Nat
  | .createProject _ => Except DaemonError Project
  | .projectByName _ => Except DaemonError (Option Project)
  | .setProjectWebhook _ _ => Except DaemonError Unit
  | .deleteProject _ => Except DaemonError DeleteSummary
  | .renameProject _ _ => Except DaemonError Project
  | .getRetentionSettings => Except DaemonError RetentionSettings
  | .setRetentionSettings _ => Except DaemonError Unit
  | .userCount => Except DaemonError Nat
  | .createUser _ _ _ => Except DaemonError User
  | .getUser _ => Except DaemonError (Option User)
  | .getUserPasswordHash _ => Except DaemonError (Option String)
  | .setUserPassword _ _ => Except DaemonError Unit
  | .setUserRole _ _ => Except DaemonError Unit
  | .setUserDeactivated _ _ => Except DaemonError Unit
  | .deleteUser _ => Except DaemonError Unit
  | .touchUserLogin _ _ => Unit
  | .countActiveAdmins => Except DaemonError Nat
  | .createSession _ _ _ _ => Except DaemonError Session
  | .sessionForId _ => Except DaemonError (Option (Session × Role × Bool))
  | .touchSession _ => Unit
  | .revokeSession _ => Except DaemonError Unit
  | .revokeUserSessions _ => Except DaemonError Nat
  | .purgeSessionsIdleSince _ => Except DaemonError Nat
  | .recordAttempt _ _ _ => Unit
  | .countRecentFailuresForUsername _ _ => Except DaemonError Nat
  | .countRecentFailuresForIp _ _ => Except DaemonError Nat
  | .pruneAuthAttemptsOlderThan _ => Except DaemonError Nat
  | .utcNow => UtcNow
  | .generateSessionId => String
  | .hashPassword _ => Except DaemonError String
  | .verifyPassword _ _ => Bool

end Call

abbrev Daemon : Interface := ⟨Call, Call.Reply⟩

/-- A transaction in its surroundings: a failure of its own or one from outside rolls it back. -/
def transact {α : Type} (w : World) (tx : Tx α) (db : Db) : Except DaemonError α × Db :=
  match tx db with
  | .error error => (.error error, db)
  | .ok (a, db') =>
      match w.fault with
      | none => (.ok a, db')
      | some (.before error) => (.error error, db)
      | some (.after error) => (.error error, db')

def bestEffort (w : World) (tx : Tx Unit) (db : Db) : Unit × Db := ((), (transact w tx db).2)

def generateSessionId (uuid uuid' : Uuid) : String := uuid.simple ++ uuid'.simple

def hashPassword (argon2 : Argon2) (w : World) (plain : String) : Except DaemonError String :=
  match argon2.hashPassword w.uuid plain with
  | .ok hash => .ok hash
  | .error message => .error (.crypto ("crypto: " ++ message))

def exec (argon2 : Argon2) : Semantics Daemon World Db := fun w c db =>
  match c with
  | .upsertIssue input => transact w (upsertIssue w.now input) db
  | .upsertBatchWithEvents batch => transact w (upsertBatchWithEvents w.now w.received batch) db
  | .setStatus issueId status => transact w (setStatus w.now issueId status) db
  | .purgeExcessEventsPerIssue max => transact w (purgeExcessEventsPerIssue max) db
  | .purgeExcessIssuesPerProject max => transact w (purgeExcessIssuesPerProject max) db
  | .purgeEventsOlderThan cutoff => transact w (purgeEventsOlderThan cutoff) db
  | .createProject name => transact w (createProject w.now w.uuid name) db
  | .projectByName name => transact w (projectByName w.now name) db
  | .setProjectWebhook name url => transact w (setProjectWebhook name url) db
  | .deleteProject name => transact w (deleteProject w.now name) db
  | .renameProject old new => transact w (renameProject w.now old new) db
  | .getRetentionSettings => transact w getRetentionSettings db
  | .setRetentionSettings settings => transact w (setRetentionSettings settings) db
  | .userCount => transact w userCount db
  | .createUser username passwordHash role => transact w (createUser w.now username passwordHash role) db
  | .getUser username => transact w (getUser w.now username) db
  | .getUserPasswordHash username => transact w (getUserPasswordHash username) db
  | .setUserPassword username passwordHash => transact w (setUserPassword username passwordHash) db
  | .setUserRole username role => transact w (setUserRole username role) db
  | .setUserDeactivated username deactivated =>
      transact w (setUserDeactivated w.now username deactivated) db
  | .deleteUser username => transact w (deleteUser username) db
  | .touchUserLogin username ip => bestEffort w (touchUserLogin w.now username ip) db
  | .countActiveAdmins => transact w countActiveAdmins db
  | .createSession id username ip userAgent =>
      transact w (createSession w.now id username ip userAgent) db
  | .sessionForId id => transact w (sessionForId w.now id) db
  | .touchSession id => bestEffort w (touchSession w.now id) db
  | .revokeSession id => transact w (revokeSession id) db
  | .revokeUserSessions username => transact w (revokeUserSessions username) db
  | .purgeSessionsIdleSince cutoff => transact w (purgeSessionsIdleSince cutoff) db
  | .recordAttempt username ip success => bestEffort w (recordAttempt w.now username ip success) db
  | .countRecentFailuresForUsername username since =>
      transact w (countRecentFailuresForUsername username since) db
  | .countRecentFailuresForIp ip since => transact w (countRecentFailuresForIp ip since) db
  | .pruneAuthAttemptsOlderThan cutoff => transact w (pruneAuthAttemptsOlderThan cutoff) db
  | .utcNow => (w.now, db)
  | .generateSessionId => (generateSessionId w.uuid w.uuid', db)
  | .hashPassword plain => (hashPassword argon2 w plain, db)
  | .verifyPassword storedHash plain => (argon2.verifyPassword storedHash plain, db)

def noon : UtcNow := ⟨⟨1777377600 * 1000000000, by decide, by decide⟩, by decide⟩

def noonReceived : SqliteTime := ⟨1777377600, by decide⟩

def noonWorld (draw : BitVec 128) : World := ⟨noon, fun _ => noonReceived, ⟨draw⟩, ⟨draw⟩, none⟩

def plainArgon2 : Argon2 := ⟨fun _ plain => .ok plain, (· == ·)⟩

end Errex.Model
