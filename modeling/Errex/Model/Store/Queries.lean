import Errex.Model.Store.Reads

/-!
# The store: lists and counts

The queries of `store.rs` behind the pages of the SPA, and what `delete_preview` counts.
-/

namespace Errex.Model.Store
open Foundation Transaction

def orderBy {ρ : Type} (key : ρ → String) (rows : List ρ) : List ρ := rows.mergeSort fun a b => !textLt (key b) (key a)

def listIssuesByProject (now : UtcNow) (project : String) : Tx (List Issue) :=
  read fun db => ((db.issues.rows.filter (·.project == project)).mergeSort fun a b =>
    !textLt a.lastSeen b.lastSeen).map (Issue.ofRow now)

structure ProjectSummary where
  project : String
  issueCount : Nat
  deriving DecidableEq

def projectSummaries : Tx (List ProjectSummary) :=
  read fun db => (orderBy id (db.issues.rows.map (·.project)).dedup).map fun project =>
    ⟨project, db.issues.rows.countP (·.project == project)⟩

def listAdminProjects (now : UtcNow) : Tx (List Project) :=
  read fun db => (orderBy (·.name) db.projects.rows).map (Project.ofRow now)

def deletePreview (now : UtcNow) (name : String) : Tx DeleteSummary := do
  if (← projectByName now name).isNone then
    fail (.notFound s!"project {name}")
  let (issuesDeleted, eventsDeleted) ← countProjectRows name
  pure ⟨eventsDeleted, issuesDeleted⟩

def listUsers (now : UtcNow) : Tx (List User) :=
  read fun db => (orderBy (·.username) db.users.rows).map (User.ofRow now)

/-- What SQLite knows besides the rows: the size of the file, and the whole days from a time to `'now'`. -/
structure Disk where
  bytes : Int
  ageDays : SqliteTime → Int

structure StorageStats where
  bytes : Int
  issues : Nat
  events : Nat
  oldestEventAgeDays : Option Int
  deriving DecidableEq

def oldestReceived (rows : List EventRow) : Option SqliteTime :=
  (orderBy (·.receivedAt.currentTimestamp) rows).head?.map (·.receivedAt)

def storageStats (disk : Disk) : Tx StorageStats :=
  read fun db =>
    { bytes := disk.bytes
      issues := db.issues.rows.length
      events := db.events.rows.length
      oldestEventAgeDays := (oldestReceived db.events.rows).map disk.ageDays }

end Errex.Model.Store
