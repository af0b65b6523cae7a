import Errex.Model.Store.Accounts

/-!
# The store: what the pages read

`latest_event` of `store.rs`, over serde_json's `from_str`, `activity_stats` and `list_user_sessions`.
-/

namespace Errex.Model.Store
open Foundation Transaction

structure StoredEvent where
  eventId : String
  receivedAt : Reading
  payload : Value

def StoredEvent.ofRow (fromStr : String → Except DaemonError Value) (now : UtcNow) (row : EventRow) :
    Except DaemonError StoredEvent := do
  let payload ← fromStr row.payload
  pure { eventId := row.eventId, receivedAt := parseOrNow now row.receivedAt.currentTimestamp, payload }

def latestRow (issueId : Int) (db : Db) : Option EventRow :=
  ((db.events.rows.filter (·.issueId == issueId)).mergeSort fun a b =>
    !descending (·.receivedAt.currentTimestamp) (·.id) b a).head?

def latestEvent (fromStr : String → Except DaemonError Value) (now : UtcNow) (issueId : Int) :
    Tx (Option StoredEvent) := fun db =>
  match latestRow issueId db with
  | none => .ok (none, db)
  | some row => (StoredEvent.ofRow fromStr now row).map fun event => (some event, db)

structure ActivityStats where
  events24h : Nat
  uniqueIssues24h : Nat
  lastEventAt : Option Reading
  hourlyBuckets : List Nat
  deriving DecidableEq

def joinedEvents (project : String) (db : Db) : List EventRow :=
  db.events.rows.flatMap fun event =>
    (db.issues.rows.filter fun row => event.issueId == row.id && row.project == project).map fun _ => event

def maxText : List String → Option String
  | [] => none
  | text :: rest => some (rest.foldl (fun greatest text => if textLt greatest text then text else greatest) text)

/-- `now - dt`: a leap second lies between an instant later in the day and what comes before it. -/
def sinceReading (now : DateTime) (dt : Reading) : Int :=
  now.nanos - dt.nanos +
    if dt.leap ∧ dt.instant.second % secondsPerDay < now.second % secondsPerDay then nanosPerSecond else 0

def countInBucket (now : DateTime) (hourlyBuckets : List Nat) (ts : String) : List Nat :=
  match parseFromRfc3339 ts with
  | none => hourlyBuckets
  | some dt =>
      let hoursAgo := (sinceReading now dt).tdiv (3600 * nanosPerSecond)
      if 0 ≤ hoursAgo ∧ hoursAgo < 24 then hourlyBuckets.modify (23 - hoursAgo).toNat (· + 1)
      else hourlyBuckets

def activitySince (clock : UtcNow) (project : String) (now cutoff : DateTime) (db : Db) : ActivityStats :=
  let joined := joinedEvents project db
  let recent := joined.filter fun event => !textLt event.receivedAt.currentTimestamp cutoff.toRfc3339
  -- a NULL of the aggregate is read as the empty text
  let lastEventAt := (maxText (joined.map (·.receivedAt.currentTimestamp))).getD ""
  { events24h := recent.length
    uniqueIssues24h := (recent.map (·.issueId)).dedup.length
    lastEventAt := ((some lastEventAt).filter (· ≠ "")).map (parseOrNow clock)
    hourlyBuckets := (recent.map (·.receivedAt.currentTimestamp)).foldl (countInBucket now) (List.replicate 24 0) }

/-- `activity_stats`; `none` is the panic of an instant with no day before it. -/
def activityStats (clock : UtcNow) (project : String) (now : DateTime) (db : Db) : Option ActivityStats :=
  ((Duration.hours 24).bind now.sub).map fun cutoff => activitySince clock project now cutoff db

def Session.ofRow (now : UtcNow) (row : SessionRow) : Session :=
  ⟨row.id, row.username, parseOrNow now row.createdAt, parseOrNow now row.lastSeenAt, row.ip, row.userAgent⟩

def listUserSessions (now : UtcNow) (username : String) : Tx (List Session) :=
  read fun db => ((db.sessions.rows.filter (·.username == username)).mergeSort fun a b =>
    !textLt a.lastSeenAt b.lastSeenAt).map (Session.ofRow now)

end Errex.Model.Store
