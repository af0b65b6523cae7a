import Errex.Model.Schema

/-!
# The store: issues, events, projects and retention

The queries of `store.rs` on these tables. A parameter `now` is what `Utc::now()` gives inside the
call; `received` is `CURRENT_TIMESTAMP` at the insertion of an event.
-/

namespace Errex.Model.Store
open Foundation Transaction

/-- `parse_or_now`, and the same reading of a column in the conversion of an issue row. -/
def parseOrNow (now : UtcNow) (text : String) : Reading := (parseFromRfc3339 text).getD now.instant.toReading

def Issue.ofRow (now : UtcNow) (row : IssueRow) : Issue where
  id := row.id
  project := row.project
  fingerprint := row.fingerprint
  title := row.title
  culprit := row.culprit
  level := row.level
  status := .fromDbStr row.status
  eventCount := row.eventCount
  firstSeen := parseOrNow now row.firstSeen
  lastSeen := parseOrNow now row.lastSeen

structure UpsertInput where
  project : String
  fp : String
  title : String
  culprit : Option String
  level : Option String
  now : DateTime

structure BatchUpsertInput extends UpsertInput where
  eventId : String
  payload : String

def UpsertInput.key (input : UpsertInput) : String × String := (input.project, input.fp)

structure UpsertResult where
  issue : Issue
  created : Bool
  regressed : Bool
  deriving DecidableEq

def newIssue (input : UpsertInput) (id : Int) : IssueRow where
  id := id
  project := input.project
  fingerprint := input.fp
  title := input.title
  culprit := input.culprit
  level := input.level
  status := "unresolved"
  eventCount := 1
  firstSeen := input.now.toRfc3339
  lastSeen := input.now.toRfc3339

/-- `INSERT INTO issues … ON CONFLICT(project, fingerprint) DO NOTHING`, with the rows affected.
SQLite draws the id before it looks for a conflict. -/
def insertIssue (input : UpsertInput) (db : Db) : Nat × Db :=
  match db.issues.insert (newIssue input (db.issueSeq + 1)) with
  | some issues => (1, { db with issues, issueSeq := db.issueSeq + 1 })
  | none => (0, { db with issueSeq := db.issueSeq + 1 })

def bumpIssue (input : UpsertInput) (status : Option String) (row : IssueRow) : IssueRow :=
  { row with
    eventCount := row.eventCount + 1
    lastSeen := input.now.toRfc3339
    status := status.getD row.status }

theorem bumpIssue_key (input : UpsertInput) (status : Option String) (row : IssueRow) :
    (bumpIssue input status row).key = row.key := rfl

def updateIssue (input : UpsertInput) (status : Option String) (db : Db) : Unit × Db :=
  let issues := db.issues.update (fun row => row.key = input.key) (bumpIssue input status)
    (bumpIssue_key input status)
  ((), { db with issues })

def issueRow (input : UpsertInput) (db : Db) : Option IssueRow := db.issues.find? input.key

/-- The statements that `upsert_issue` and `upsert_batch_with_events` share: the row as it stands
after the write, whether it was created, and whether a resolved issue was reopened. -/
def upsertRow (input : UpsertInput) : Tx (IssueRow × Bool × Bool) := do
  let inserted ← execute (insertIssue input)
  let created := inserted == 1
  let mut regressed := false
  if !created then
    let previous ← Tx.fetchOne (issueRow input)
    if IssueStatus.fromDbStr previous.status = .resolved then
      regressed := true
      execute (updateIssue input (some "unresolved"))
    else
      execute (updateIssue input none)
  let row ← Tx.fetchOne (issueRow input)
  pure (row, created, regressed)

def upsertIssue (now : UtcNow) (input : UpsertInput) : Tx UpsertResult := do
  let (row, created, regressed) ← upsertRow input
  pure { issue := Issue.ofRow now row, created, regressed }

/-- `INSERT INTO events … ON CONFLICT(event_id) DO NOTHING`, under the foreign key on `issue_id`. -/
def insertEvent (received : SqliteTime) (issueId : Int) (eventId payload : String) : Tx Unit := fun db =>
  match db.events.insert ⟨db.eventSeq + 1, issueId, eventId, payload, received⟩ with
  | none => .ok ((), { db with eventSeq := db.eventSeq + 1 })
  | some events =>
      if db.issues.rows.any (·.id == issueId) then
        .ok ((), { db with events, eventSeq := db.eventSeq + 1 })
      else .error (.sqlx .foreignKeyViolation)

def upsertInput (now : UtcNow) (received : SqliteTime) (input : BatchUpsertInput) : Tx UpsertResult := do
  let (row, created, regressed) ← upsertRow input.toUpsertInput
  insertEvent received row.id input.eventId input.payload
  pure { issue := Issue.ofRow now row, created, regressed }

/-- The inputs of a batch in turn; `received n` is the clock at the insertion of the `n`-th. -/
def upsertBatchWithEvents (now : UtcNow) (received : Nat → SqliteTime) :
    List BatchUpsertInput → Tx (List UpsertResult)
  | [] => pure []
  | input :: batch => do
      let result ← upsertInput now (received 0) input
      let results ← upsertBatchWithEvents now (fun n => received (n + 1)) batch
      pure (result :: results)

def triageIssue (status : IssueStatus) (row : IssueRow) : IssueRow :=
  { row with status := status.asDbStr }

theorem triageIssue_key (status : IssueStatus) (row : IssueRow) :
    (triageIssue status row).key = row.key := rfl

def updateStatus (issueId : Int) (status : IssueStatus) (db : Db) : Nat × Db :=
  let issues := db.issues.update (·.id == issueId) (triageIssue status) (triageIssue_key status)
  (db.issues.count (·.id == issueId), { db with issues })

def issueOfId (issueId : Int) (db : Db) : Option IssueRow := db.issues.rows.find? (·.id == issueId)

def setStatus (now : UtcNow) (issueId : Int) (status : IssueStatus) : Tx Issue := do
  let updated ← execute (updateStatus issueId status)
  if updated = 0 then fail (.notFound s!"issue {issueId}")
  let row ← Tx.fetchOne (issueOfId issueId)
  pure (Issue.ofRow now row)

def loadIssues (now : UtcNow) : Tx (List Issue) :=
  read fun db => (db.issues.rows.mergeSort fun a b => !textLt a.lastSeen b.lastSeen).map (Issue.ofRow now)

/-- `DELETE FROM issues WHERE …`, with the events that the foreign key takes along. -/
def deleteIssues (doomed : IssueRow → Bool) (db : Db) : Nat × Db :=
  (db.issues.count doomed,
    { db with
      issues := db.issues.delete doomed
      events := db.events.delete fun event =>
        db.issues.rows.any fun row => doomed row && row.id == event.issueId })

/-- `ROW_NUMBER() OVER (PARTITION BY … ORDER BY …)` of a row among `rows`. -/
def rowNumber {ρ : Type} (partner before : ρ → ρ → Bool) (rows : List ρ) (row : ρ) : Nat :=
  rows.countP (fun other => partner other row && before other row) + 1

def descending {ρ : Type} (text : ρ → String) (id : ρ → Int) (a b : ρ) : Bool :=
  textLt (text b) (text a) || (text a == text b && decide (id b < id a))

def purgeExcessEventsPerIssue (max : Int64) : Tx Nat :=
  if max ≤ 0 then pure 0
  else execute fun db =>
    let excess event := decide (max.toInt < rowNumber (fun a b => a.issueId == b.issueId)
      (descending (·.receivedAt.currentTimestamp) (·.id)) db.events.rows event)
    (db.events.count excess, { db with events := db.events.delete excess })

def purgeExcessIssuesPerProject (max : Int64) : Tx Nat :=
  if max ≤ 0 then pure 0
  else execute fun db =>
    deleteIssues (fun row => decide (max.toInt < rowNumber (fun a b => a.project == b.project)
      (descending (·.lastSeen) (·.id)) db.issues.rows row)) db

def purgeEventsOlderThan (cutoff : DateTime) : Tx Nat :=
  execute fun db =>
    let old (event : EventRow) := textLt event.receivedAt.currentTimestamp cutoff.toRfc3339
    (db.events.count old, { db with events := db.events.delete old })

structure Project where
  name : String
  token : String
  createdAt : Reading
  lastUsedAt : Option Reading
  webhookUrl : Option String
  lastWebhookStatus : Option Int
  lastWebhookAt : Option Reading
  deriving DecidableEq

def Project.ofRow (now : UtcNow) (row : ProjectRow) : Project where
  name := row.name
  token := row.token
  createdAt := parseOrNow now row.createdAt
  lastUsedAt := row.lastUsedAt.map (parseOrNow now)
  webhookUrl := row.webhookUrl
  lastWebhookStatus := row.lastWebhookStatus.map fun n => max 0 (min n 32767)
  lastWebhookAt := row.lastWebhookAt.map (parseOrNow now)

structure DeleteSummary where
  eventsDeleted : Nat
  issuesDeleted : Nat
  deriving DecidableEq

def generateToken (uuid : Uuid) : String := uuid.simple

def createProject (now : UtcNow) (uuid : Uuid) (name : String) : Tx Project := fun db =>
  let token := generateToken uuid
  let createdAt := now.instant.toRfc3339
  match db.projects.insert ⟨name, token, createdAt, none, none, none, none⟩ with
  | none => .error (.sqlx .uniqueViolation)
  | some projects => .ok (⟨name, token, parseOrNow now createdAt, none, none, none, none⟩, { db with projects })

def projectByName (now : UtcNow) (name : String) : Tx (Option Project) :=
  read fun db => (db.projects.find? name).map (Project.ofRow now)

def projectByToken (now : UtcNow) (token : String) : Tx (Option Project) :=
  read fun db => (db.projects.rows.find? (·.token == token)).map (Project.ofRow now)

def withToken (token : String) (row : ProjectRow) : ProjectRow := { row with token }

theorem withToken_name (token : String) (row : ProjectRow) : (withToken token row).name = row.name := rfl

def rotateToken (now : UtcNow) (uuid : Uuid) (name : String) : Tx Project := do
  let updated ← execute fun db =>
    let projects := db.projects.update (·.name == name) (withToken (generateToken uuid)) (withToken_name _)
    (db.projects.count (·.name == name), { db with projects })
  if updated = 0 then fail (.notFound s!"project {name}")
  match ← projectByName now name with
  | some project => pure project
  | none => fail (.notFound s!"project {name} (post-rotate)")

def withLastUsed (lastUsedAt : String) (row : ProjectRow) : ProjectRow := { row with lastUsedAt := some lastUsedAt }

theorem withLastUsed_name (lastUsedAt : String) (row : ProjectRow) : (withLastUsed lastUsedAt row).name = row.name :=
  rfl

def touchProjectUsed (now : UtcNow) (name : String) : Tx Unit :=
  execute fun db =>
    let projects := db.projects.update (·.name == name) (withLastUsed now.instant.toRfc3339) (withLastUsed_name _)
    ((), { db with projects })

def withWebhook (url : Option String) (row : ProjectRow) : ProjectRow := { row with webhookUrl := url }

theorem withWebhook_name (url : Option String) (row : ProjectRow) : (withWebhook url row).name = row.name :=
  rfl

def setProjectWebhook (name : String) (url : Option String) : Tx Unit := do
  let updated ← execute fun db =>
    let projects := db.projects.update (·.name == name) (withWebhook url) (withWebhook_name url)
    (db.projects.count (·.name == name), { db with projects })
  if updated = 0 then fail (.notFound s!"project {name}")

def withAttempt (status : UInt16) (attemptedAt : String) (row : ProjectRow) : ProjectRow :=
  { row with lastWebhookStatus := some status.toNat, lastWebhookAt := some attemptedAt }

theorem withAttempt_name (status : UInt16) (attemptedAt : String) (row : ProjectRow) :
    (withAttempt status attemptedAt row).name = row.name := rfl

def recordWebhookAttempt (now : UtcNow) (name : String) (status : UInt16) : Tx Unit :=
  execute fun db =>
    let attempt := withAttempt status now.instant.toRfc3339
    ((), { db with projects := db.projects.update (·.name == name) attempt (withAttempt_name _ _) })

def countProjectRows (name : String) : Tx (Nat × Nat) :=
  read fun db => (db.issues.count (·.project == name),
    db.events.count fun event => db.issues.rows.any fun row =>
      row.id == event.issueId && row.project == name)

def deleteProject (now : UtcNow) (name : String) : Tx DeleteSummary := do
  if (← projectByName now name).isNone then fail (.notFound s!"project {name}")
  let (issuesDeleted, eventsDeleted) ← countProjectRows name
  let _ ← execute (deleteIssues (·.project == name))
  execute fun db => ((), { db with projects := db.projects.delete (·.name == name) })
  pure { eventsDeleted, issuesDeleted }

def renameProjectRow (old new : String) : Tx Unit := fun db =>
  match db.projects.rekey (·.name == old) fun row => { row with name := new } with
  | none => .error (.sqlx .uniqueViolation)
  | some projects => .ok ((), { db with projects })

def renameIssues (old new : String) : Tx Unit := fun db =>
  match db.issues.rekey (·.project == old) fun row => { row with project := new } with
  | none => .error (.sqlx .uniqueViolation)
  | some issues => .ok ((), { db with issues })

def renameProject (now : UtcNow) (old new : String) : Tx Project := do
  if old = new then
    match ← projectByName now old with
    | some project => return project
    | none => fail (.notFound s!"project {old}")
  else
    if (← projectByName now old).isNone then fail (.notFound s!"project {old}")
    renameProjectRow old new
    renameIssues old new
    match ← projectByName now new with
    | some project => pure project
    | none => fail (.notFound s!"project {new} (post-rename)")

def getRetentionSettings : Tx RetentionSettings := read fun db => db.retention.getD ⟨0, 0, 0⟩

def setRetentionSettings (settings : RetentionSettings) : Tx Unit :=
  execute fun db => ((), { db with retention := some settings })

end Errex.Model.Store
