import Errex.Model.Store.Issues

/-!
# The store: users, sessions and login attempts

The queries of `store.rs` on these tables. A parameter `now` is what `Utc::now()` gives inside the
call.
-/

namespace Errex.Model

namespace Role

def isAdmin (role : Role) : Bool := role == .admin

end Role

namespace Store
open Foundation Transaction

structure User where
  username : String
  role : Role
  createdAt : Reading
  lastLoginAt : Option Reading
  lastLoginIp : Option String
  deactivatedAt : Option Reading
  deriving DecidableEq

def User.ofRow (now : UtcNow) (row : UserRow) : User where
  username := row.username
  role := row.role
  createdAt := parseOrNow now row.createdAt
  lastLoginAt := row.lastLoginAt.map (parseOrNow now)
  lastLoginIp := row.lastLoginIp
  deactivatedAt := row.deactivatedAt.map (parseOrNow now)

def userCount : Tx Nat := read fun db => db.users.rows.length

def createUser (now : UtcNow) (username passwordHash : String) (role : Role) : Tx User := fun db =>
  let createdAt := now.instant.toRfc3339
  match db.users.insert ⟨username, passwordHash, role, createdAt, none, none, none⟩ with
  | none => .error (.sqlx .uniqueViolation)
  | some users => .ok (⟨username, role, parseOrNow now createdAt, none, none, none⟩, { db with users })

def getUser (now : UtcNow) (username : String) : Tx (Option User) :=
  read fun db => (db.users.find? username).map (User.ofRow now)

def getUserPasswordHash (username : String) : Tx (Option String) :=
  read fun db => (db.users.find? username).map (·.passwordHash)

inductive UserChange where
  | passwordHash (hash : String)
  | role (r : Role)
  | deactivatedAt (text : Option String)
  | login (instant : String) (ip : Option String)

def UserChange.apply : UserChange → UserRow → UserRow
  | .passwordHash hash, row => { row with passwordHash := hash }
  | .role r, row => { row with role := r }
  | .deactivatedAt text, row => { row with deactivatedAt := text }
  | .login instant ip, row => { row with lastLoginAt := some instant, lastLoginIp := ip }

theorem UserChange.apply_username (change : UserChange) (row : UserRow) :
    (change.apply row).username = row.username := by
  cases change <;> rfl

def updateUser (username : String) (change : UserChange) (db : Db) : Nat × Db :=
  let users := db.users.update (·.username == username) change.apply change.apply_username
  (db.users.count (·.username == username), { db with users })

def setUserPassword (username passwordHash : String) : Tx Unit := do
  let updated ← execute (updateUser username (.passwordHash passwordHash))
  if updated = 0 then fail (.notFound s!"user {username}")

def setUserRole (username : String) (role : Role) : Tx Unit := do
  let updated ← execute (updateUser username (.role role))
  if updated = 0 then fail (.notFound s!"user {username}")

def deleteSessions (doomed : SessionRow → Bool) (db : Db) : Nat × Db :=
  (db.sessions.count doomed, { db with sessions := db.sessions.delete doomed })

/-- Deactivation revokes the user's sessions in the same transaction. -/
def setUserDeactivated (now : UtcNow) (username : String) (deactivated : Bool) : Tx Unit := do
  let value := if deactivated then some now.instant.toRfc3339 else none
  let updated ← execute (updateUser username (.deactivatedAt value))
  if updated = 0 then fail (.notFound s!"user {username}")
  if deactivated then
    let _ ← execute (deleteSessions (·.username == username))

/-- `DELETE FROM users WHERE username = ?`; the foreign key of `sessions` cascades. -/
def deleteUserRow (username : String) (db : Db) : Nat × Db :=
  (db.users.count (·.username == username),
    { db with
      users := db.users.delete (·.username == username)
      sessions := db.sessions.delete fun session =>
        db.users.rows.any fun row => row.username == username && row.username == session.username })

def deleteUser (username : String) : Tx Unit := do
  let updated ← execute (deleteUserRow username)
  if updated = 0 then fail (.notFound s!"user {username}")

def touchUserLogin (now : UtcNow) (username : String) (ip : Option String) : Tx Unit := do
  let _ ← execute (updateUser username (.login now.instant.toRfc3339 ip))

def isActiveAdmin (row : UserRow) : Bool := row.role == .admin && row.deactivatedAt.isNone

def countActiveAdmins : Tx Nat := read fun db => db.users.count isActiveAdmin

structure Session where
  id : String
  username : String
  createdAt : Reading
  lastSeenAt : Reading
  ip : Option String
  userAgent : Option String
  deriving DecidableEq

/-- `INSERT INTO sessions`, under the primary key and the foreign key on `username`. -/
def createSession (now : UtcNow) (id username : String) (ip userAgent : Option String) : Tx Session :=
  fun db =>
    let text := now.instant.toRfc3339
    match db.sessions.insert ⟨id, username, text, text, ip, userAgent⟩ with
    | none => .error (.sqlx .uniqueViolation)
    | some sessions =>
        if (db.users.find? username).isSome then
          .ok (⟨id, username, now.instant.toReading, now.instant.toReading, ip, userAgent⟩, { db with sessions })
        else .error (.sqlx .foreignKeyViolation)

/-- The session, the role of its user, and whether the user is deactivated. -/
def sessionForId (now : UtcNow) (id : String) : Tx (Option (Session × Role × Bool)) :=
  read fun db => do
    let row ← db.sessions.find? id
    let user ← db.users.find? row.username
    let session : Session :=
      ⟨row.id, row.username, parseOrNow now row.createdAt, parseOrNow now row.lastSeenAt, row.ip, row.userAgent⟩
    pure (session, user.role, user.deactivatedAt.isSome)

def seenAt (text : String) (row : SessionRow) : SessionRow := { row with lastSeenAt := text }

theorem seenAt_id (text : String) (row : SessionRow) : (seenAt text row).id = row.id := rfl

def touchSession (now : UtcNow) (id : String) : Tx Unit :=
  execute fun db =>
    let text := now.instant.toRfc3339
    let sessions := db.sessions.update (·.id == id) (seenAt text) (seenAt_id text)
    ((), { db with sessions })

def revokeSession (id : String) : Tx Unit := do
  let _ ← execute (deleteSessions (·.id == id))

def revokeUserSessions (username : String) : Tx Nat :=
  execute (deleteSessions (·.username == username))

def purgeSessionsIdleSince (cutoff : DateTime) : Tx Nat :=
  execute (deleteSessions fun row => textLt row.lastSeenAt cutoff.toRfc3339)

def recordAttempt (now : UtcNow) (username : Option String) (ip : String) (success : Bool) : Tx Unit :=
  execute fun db =>
    ((), { db with attempts := db.attempts ++ [⟨username, ip, now.instant.toRfc3339, success⟩] })

def recentFailure (since : DateTime) (row : AttemptRow) : Bool :=
  !row.success && !textLt row.ts since.toRfc3339

def countRecentFailuresForUsername (username : String) (since : DateTime) : Tx Nat :=
  read fun db => db.attempts.countP fun row => row.username == some username && recentFailure since row

def countRecentFailuresForIp (ip : String) (since : DateTime) : Tx Nat :=
  read fun db => db.attempts.countP fun row => row.ip == ip && recentFailure since row

def pruneAuthAttemptsOlderThan (cutoff : DateTime) : Tx Nat :=
  execute fun db =>
    let old (row : AttemptRow) := textLt row.ts cutoff.toRfc3339
    (db.attempts.countP old, { db with attempts := db.attempts.filter fun row => !old row })

end Store

end Errex.Model
