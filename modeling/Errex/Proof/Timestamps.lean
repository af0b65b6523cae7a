import Errex.Foundation.Machine
import Errex.Proof.Frame
import Errex.Proof.Rfc3339
import Errex.Model.Store.Reads

/-!
# Instants in the database

Which instant stands behind each text that a statement puts into a column of instants, over whole runs, and what the
read path of the column makes of it.
-/

namespace Errex.Proof.Timestamps
open Foundation Calendar Transaction Model Store

inductive Column where
  | firstSeen
  | lastSeen
  | lastSeenAt
  | lastUsedAt
  | lastLoginAt
  | receivedAt
  deriving DecidableEq

/-- An instant as it is written: bound as RFC 3339, or by the column default. -/
inductive Stamp where
  | bound (t : DateTime)
  | currentTimestamp (s : SqliteTime)

def Stamp.text : Stamp → String
  | .bound t => t.toRfc3339
  | .currentTimestamp s => s.currentTimestamp

def Stamp.nanos : Stamp → Int
  | .bound t => t.nanos
  | .currentTimestamp s => s.seconds * nanosPerSecond

def Stamp.day : Stamp → Int
  | .bound t => t.day
  | .currentTimestamp s => s.day

def Column.reads (db : Db) : Column → List (String × (UtcNow → Reading))
  | .firstSeen => db.issues.rows.map fun row => (row.firstSeen, fun clock => (Issue.ofRow clock row).firstSeen)
  | .lastSeen => db.issues.rows.map fun row => (row.lastSeen, fun clock => (Issue.ofRow clock row).lastSeen)
  | .lastSeenAt => db.sessions.rows.map fun row => (row.lastSeenAt, fun clock => parseOrNow clock row.lastSeenAt)
  | .lastUsedAt => db.projects.rows.filterMap fun row => row.lastUsedAt.map fun text =>
      (text, fun clock => ((Project.ofRow clock row).lastUsedAt).getD clock.instant.toReading)
  | .lastLoginAt => db.users.rows.filterMap fun row => row.lastLoginAt.map fun text =>
      (text, fun clock => ((User.ofRow clock row).lastLoginAt).getD clock.instant.toReading)
  | .receivedAt => db.events.rows.map fun row =>
      (row.receivedAt.currentTimestamp, fun clock => parseOrNow clock row.receivedAt.currentTimestamp)

inductive Statement where
  | call (c : Call)
  | insertEvent (issueId : Int) (eventId payload : String)
  | touchProjectUsed (name : String)
  | rotateToken (name : String)
  | recordWebhookAttempt (name : String) (status : UInt16)

def Statement.exec (argon2 : Argon2) (db : Db) : World × Statement → Db
  | (w, .call c) => (Model.exec argon2 w c db).2
  | (w, .insertEvent issueId eventId payload) =>
      (transact w (Store.insertEvent (w.received 0) issueId eventId payload) db).2
  | (w, .touchProjectUsed name) => (bestEffort w (Store.touchProjectUsed w.now name) db).2
  | (w, .rotateToken name) => (transact w (Store.rotateToken w.now w.uuid name) db).2
  | (w, .recordWebhookAttempt name status) => (bestEffort w (Store.recordWebhookAttempt w.now name status) db).2

inductive Puts : World × Statement → Column → Stamp → Prop
  | upsertFirst {w : World} {input : UpsertInput} : Puts (w, .call (.upsertIssue input)) .firstSeen (.bound input.now)
  | upsertLast {w : World} {input : UpsertInput} : Puts (w, .call (.upsertIssue input)) .lastSeen (.bound input.now)
  | batchFirst {w : World} {batch : List BatchUpsertInput} {input : BatchUpsertInput} (mem : input ∈ batch) :
      Puts (w, .call (.upsertBatchWithEvents batch)) .firstSeen (.bound input.now)
  | batchLast {w : World} {batch : List BatchUpsertInput} {input : BatchUpsertInput} (mem : input ∈ batch) :
      Puts (w, .call (.upsertBatchWithEvents batch)) .lastSeen (.bound input.now)
  | batchReceived {w : World} {batch : List BatchUpsertInput} (n : Nat) :
      Puts (w, .call (.upsertBatchWithEvents batch)) .receivedAt (.currentTimestamp (w.received n))
  | insertEvent {w : World} {issueId : Int} {eventId payload : String} :
      Puts (w, .insertEvent issueId eventId payload) .receivedAt (.currentTimestamp (w.received 0))
  | createSession {w : World} {id username : String} {ip userAgent : Option String} :
      Puts (w, .call (.createSession id username ip userAgent)) .lastSeenAt (.bound w.now.instant)
  | touchSession {w : World} {id : String} : Puts (w, .call (.touchSession id)) .lastSeenAt (.bound w.now.instant)
  | touchUserLogin {w : World} {username : String} {ip : Option String} :
      Puts (w, .call (.touchUserLogin username ip)) .lastLoginAt (.bound w.now.instant)
  | touchProjectUsed {w : World} {name : String} : Puts (w, .touchProjectUsed name) .lastUsedAt (.bound w.now.instant)

section

variable (known : Column → Stamp → Prop)

def Known (column : Column) (text : String) : Prop := ∃ stamp, known column stamp ∧ text = stamp.text

structure Stamped (db : Db) : Prop where
  issues : ∀ row ∈ db.issues.rows, Known known .firstSeen row.firstSeen ∧ Known known .lastSeen row.lastSeen
  events : ∀ row ∈ db.events.rows, known .receivedAt (.currentTimestamp row.receivedAt)
  projects : ∀ row ∈ db.projects.rows, ∀ text ∈ row.lastUsedAt, Known known .lastUsedAt text
  users : ∀ row ∈ db.users.rows, ∀ text ∈ row.lastLoginAt, Known known .lastLoginAt text
  sessions : ∀ row ∈ db.sessions.rows, Known known .lastSeenAt row.lastSeenAt

end

variable {known : Column → Stamp → Prop} {db : Db}

theorem Stamped.empty : Stamped known Db.empty where
  issues _ mem := absurd mem List.not_mem_nil
  events _ mem := absurd mem List.not_mem_nil
  projects _ mem := absurd mem List.not_mem_nil
  users _ mem := absurd mem List.not_mem_nil
  sessions _ mem := absurd mem List.not_mem_nil

theorem insertIssue_stamped {input : UpsertInput} (first : known .firstSeen (.bound input.now))
    (last : known .lastSeen (.bound input.now)) (stamped : Stamped known db) : Stamped known (insertIssue input db).2 := by
  unfold insertIssue
  split
  · rename_i issues inserted
    exact { stamped with issues := Table.forall_insert stamped.issues inserted ⟨⟨_, first, rfl⟩, ⟨_, last, rfl⟩⟩ }
  · exact { stamped with }

theorem upsertRow_stamped {input : UpsertInput} (first : known .firstSeen (.bound input.now))
    (last : known .lastSeen (.bound input.now)) : (upsertRow input).Keeps (Stamped known) :=
  upsertRow_keeps (fun _ stamped => insertIssue_stamped first last stamped) fun _ _ stamped =>
    { stamped with issues := Table.forall_update stamped.issues (bumpIssue_key input _) fun _ old => ⟨old.1, _, last, rfl⟩ }

theorem insertEvent_stamped {received : SqliteTime} {issueId : Int} {eventId payload : String}
    (put : known .receivedAt (.currentTimestamp received)) :
    (insertEvent received issueId eventId payload).Keeps (Stamped known) := by
  intro db u db' done stamped
  unfold insertEvent at done
  split at done
  · cases done
    exact { stamped with }
  · rename_i events inserted
    split_ifs at done
    cases done
    exact { stamped with events := Table.forall_insert stamped.events inserted put }

theorem upsertBatch_stamped {now : UtcNow} {batch : List BatchUpsertInput} {received : Nat → SqliteTime}
    (first : ∀ input ∈ batch, known .firstSeen (.bound input.now)) (last : ∀ input ∈ batch, known .lastSeen (.bound input.now))
    (puts : ∀ n, known .receivedAt (.currentTimestamp (received n))) :
    (upsertBatchWithEvents now received batch).Keeps (Stamped known) := by
  induction batch generalizing received with
  | nil => exact .pure _
  | cons input batch ih =>
      have one : (upsertInput now (received 0) input).Keeps (Stamped known) :=
        .bind (upsertRow_stamped (first _ List.mem_cons_self) (last _ List.mem_cons_self)) fun _ =>
          .bind (insertEvent_stamped (puts 0)) fun _ => .pure _
      have rest := ih (fun other mem => first other (List.mem_cons_of_mem _ mem))
        (fun other mem => last other (List.mem_cons_of_mem _ mem)) fun n => puts (n + 1)
      exact .bind one fun _ => .bind rest fun _ => .pure _

theorem deleteIssues_stamped (doomed : IssueRow → Bool) (stamped : Stamped known db) :
    Stamped known (deleteIssues doomed db).2 :=
  { stamped with
    issues := Table.forall_delete stamped.issues
    events := Table.forall_delete stamped.events }

theorem updateUser_stamped (username : String) {change : UserChange}
    (login : ∀ row : UserRow, ∀ text ∈ (change.apply row).lastLoginAt, text ∈ row.lastLoginAt ∨ Known known .lastLoginAt text)
    (stamped : Stamped known db) : Stamped known (updateUser username change db).2 :=
  { stamped with
    users := Table.forall_update stamped.users change.apply_username fun row old text mem =>
      (login row text mem).elim (old text) id }

theorem renameIssues_stamped (old new : String) : (renameIssues old new).Keeps (Stamped known) := by
  intro db u db' done stamped
  unfold renameIssues at done
  split at done
  · cases done
  · rename_i issues renamed
    cases done
    exact { stamped with issues := Table.forall_rekey stamped.issues renamed fun _ old => old }

theorem touchProjectUsed_stamped {now : UtcNow} {name : String} (put : known .lastUsedAt (.bound now.instant)) :
    (touchProjectUsed now name).Keeps (Stamped known) := by
  refine .execute fun db stamped => { stamped with projects := ?_ }
  refine Table.forall_update stamped.projects (withLastUsed_name _) fun row _ text mem => ?_
  exact ⟨_, put, (Option.some.inj mem).symm⟩

theorem rotateToken_stamped (now : UtcNow) (uuid : Uuid) (name : String) :
    (rotateToken now uuid name).Keeps (Stamped known) := by
  have answer := @projectAnswer_keeps (Stamped known) now name s!"project {name} (post-rotate)"
  refine .bind (.execute fun db stamped => { stamped with projects := ?_ }) fun updated => ?_
  · exact Table.forall_update stamped.projects (withToken_name _) fun _ old => old
  · split_ifs
    · exact .bind (.fail _) fun _ => answer
    · exact answer

theorem call_stamped (argon2 : Argon2) (w : World) (c : Call)
    (puts : ∀ column stamp, Puts (w, .call c) column stamp → known column stamp) (stamped : Stamped known db) :
    Stamped known (exec argon2 w c db).2 := by
  have frame := exec_frame argon2 w c db
  have plain : ∀ {username : String} {change : UserChange}, (∀ row : UserRow, (change.apply row).lastLoginAt = row.lastLoginAt) →
      ∀ db, Stamped known db → Stamped known (updateUser username change db).2 := fun same db stamped =>
    updateUser_stamped _ (fun row text mem => .inl (same row ▸ mem)) stamped
  cases c
  case upsertIssue input =>
    exact transact_keeps (.bind (upsertRow_stamped (puts _ _ .upsertFirst) (puts _ _ .upsertLast)) fun _ => .pure _) stamped
  case upsertBatchWithEvents batch =>
    exact transact_keeps (upsertBatch_stamped (fun _ mem => puts _ _ (.batchFirst mem)) (fun _ mem => puts _ _ (.batchLast mem))
      fun n => puts _ _ (.batchReceived n)) stamped
  case setStatus issueId status =>
    exact transact_keeps (setStatus_keeps fun _ stamped =>
      { stamped with issues := Table.forall_update stamped.issues (triageIssue_key status) fun _ old => old }) stamped
  case purgeExcessEventsPerIssue max =>
    exact transact_keeps (purgeExcessEventsPerIssue_keeps fun _ _ stamped =>
      { stamped with events := Table.forall_delete stamped.events }) stamped
  case purgeExcessIssuesPerProject max =>
    exact transact_keeps (purgeExcessIssuesPerProject_keeps fun _ _ => deleteIssues_stamped _) stamped
  case purgeEventsOlderThan cutoff =>
    exact transact_keeps (.execute fun _ stamped => { stamped with events := Table.forall_delete stamped.events }) stamped
  case createProject name =>
    refine transact_keeps (createProject_keeps fun row projects db inserted unused stamped => ?_) stamped
    exact { stamped with projects := Table.forall_insert stamped.projects inserted (by rw [unused]; exact nofun) }
  case setProjectWebhook name url =>
    exact transact_keeps (execute_check_keeps fun _ stamped =>
      { stamped with projects := Table.forall_update stamped.projects (withWebhook_name url) fun _ old => old }) stamped
  case deleteProject name =>
    exact transact_keeps (deleteProject_keeps (fun _ _ => deleteIssues_stamped _) fun _ _ stamped =>
      { stamped with projects := Table.forall_delete stamped.projects }) stamped
  case renameProject old new =>
    exact transact_keeps (renameProject_keeps (fun _ _ renamed stamped =>
      { stamped with projects := Table.forall_rekey stamped.projects renamed fun _ old => old })
        (renameIssues_stamped _ _)) stamped
  case createUser username hash role =>
    refine transact_keeps (createUser_keeps fun row users db inserted _ _ unseen stamped => ?_) stamped
    exact { stamped with users := Table.forall_insert stamped.users inserted (by rw [unseen]; exact nofun) }
  case setUserPassword username hash => exact transact_keeps (execute_check_keeps (plain fun _ => rfl)) stamped
  case setUserRole username role => exact transact_keeps (execute_check_keeps (plain fun _ => rfl)) stamped
  case setUserDeactivated username deactivated =>
    exact transact_keeps (setUserDeactivated_keeps (plain fun _ => rfl) fun _ stamped =>
      { stamped with sessions := Table.forall_delete stamped.sessions }) stamped
  case deleteUser username =>
    exact transact_keeps (execute_check_keeps fun _ stamped =>
      { stamped with
        users := Table.forall_delete stamped.users
        sessions := Table.forall_delete stamped.sessions }) stamped
  case touchUserLogin username ip =>
    refine transact_keeps (.bind (.execute fun db stamped => ?_) fun _ => .pure _) stamped
    refine updateUser_stamped _ (fun row text mem => .inr ?_) stamped
    exact ⟨_, puts _ _ .touchUserLogin, (Option.some.inj mem).symm⟩
  case createSession id username ip ua =>
    refine transact_keeps (createSession_keeps fun row sessions db inserted _ seen stamped => ?_) stamped
    exact { stamped with sessions := Table.forall_insert stamped.sessions inserted ⟨_, puts _ _ .createSession, seen⟩ }
  case touchSession id =>
    refine transact_keeps (.execute fun db stamped => { stamped with sessions := ?_ }) stamped
    exact Table.forall_update stamped.sessions (seenAt_id _) fun _ _ => ⟨_, puts _ _ .touchSession, rfl⟩
  case revokeSession id =>
    exact transact_keeps (.bind (.execute fun _ stamped =>
      { stamped with sessions := Table.forall_delete stamped.sessions }) fun _ => .pure _) stamped
  case revokeUserSessions username =>
    exact transact_keeps (.execute fun _ stamped => { stamped with sessions := Table.forall_delete stamped.sessions }) stamped
  case purgeSessionsIdleSince cutoff =>
    exact transact_keeps (.execute fun _ stamped => { stamped with sessions := Table.forall_delete stamped.sessions }) stamped
  all_goals
    have issues := (frame.issues rfl).1
    have events := (frame.events rfl).1
    refine ⟨?_, ?_, ?_, ?_, ?_⟩
    · exact issues ▸ stamped.issues
    · exact events ▸ stamped.events
    · exact frame.projects rfl ▸ stamped.projects
    · exact frame.users rfl ▸ stamped.users
    · exact frame.sessions rfl ▸ stamped.sessions

theorem statement_stamped (argon2 : Argon2) (s : World × Statement)
    (puts : ∀ column stamp, Puts s column stamp → known column stamp) (stamped : Stamped known db) :
    Stamped known (Statement.exec argon2 db s) := by
  obtain ⟨w, statement⟩ := s
  cases statement with
  | call c => exact call_stamped argon2 w c puts stamped
  | insertEvent issueId eventId payload =>
      exact transact_keeps (insertEvent_stamped (puts _ _ .insertEvent)) stamped
  | touchProjectUsed name => exact transact_keeps (touchProjectUsed_stamped (puts _ _ .touchProjectUsed)) stamped
  | rotateToken name => exact transact_keeps (rotateToken_stamped _ _ _) stamped
  | recordWebhookAttempt name status =>
      refine transact_keeps (.execute fun db stamped => { stamped with projects := ?_ }) stamped
      exact Table.forall_update stamped.projects (withAttempt_name _ _) fun _ old => old

theorem run_stamped (argon2 : Argon2) (statements : List (World × Statement)) :
    Stamped (fun column stamp => ∃ s ∈ statements, Puts s column stamp)
      (Machine.run (Statement.exec argon2) Db.empty statements) := by
  apply Machine.run_keeps_of_forall _ _ (fun s mem => mem) Stamped.empty
  intro db s stamped mem
  exact statement_stamped argon2 s (fun _ _ put => ⟨s, mem, put⟩) stamped

theorem Column.reads_known {column : Column} {text : String} {read : UtcNow → Reading} (stamped : Stamped known db)
    (stored : (text, read) ∈ column.reads db) : Known known column text ∧ ∀ clock, read clock = parseOrNow clock text := by
  cases column
  case firstSeen =>
    obtain ⟨row, mem, eq⟩ := List.mem_map.mp stored
    obtain ⟨rfl, rfl⟩ := Prod.mk.inj eq
    exact ⟨(stamped.issues row mem).1, fun _ => rfl⟩
  case lastSeen =>
    obtain ⟨row, mem, eq⟩ := List.mem_map.mp stored
    obtain ⟨rfl, rfl⟩ := Prod.mk.inj eq
    exact ⟨(stamped.issues row mem).2, fun _ => rfl⟩
  case lastSeenAt =>
    obtain ⟨row, mem, eq⟩ := List.mem_map.mp stored
    obtain ⟨rfl, rfl⟩ := Prod.mk.inj eq
    exact ⟨stamped.sessions row mem, fun _ => rfl⟩
  case lastUsedAt =>
    obtain ⟨row, mem, eq⟩ := List.mem_filterMap.mp stored
    obtain ⟨written, used, eq⟩ := Option.map_eq_some_iff.mp eq
    obtain ⟨rfl, rfl⟩ := Prod.mk.inj eq
    exact ⟨stamped.projects row mem _ used, fun clock => by simp [Project.ofRow, used]⟩
  case lastLoginAt =>
    obtain ⟨row, mem, eq⟩ := List.mem_filterMap.mp stored
    obtain ⟨written, login, eq⟩ := Option.map_eq_some_iff.mp eq
    obtain ⟨rfl, rfl⟩ := Prod.mk.inj eq
    exact ⟨stamped.users row mem _ login, fun clock => by simp [User.ofRow, login]⟩
  case receivedAt =>
    obtain ⟨row, mem, eq⟩ := List.mem_map.mp stored
    obtain ⟨rfl, rfl⟩ := Prod.mk.inj eq
    exact ⟨⟨_, stamped.events row mem, rfl⟩, fun _ => rfl⟩

theorem Puts.form {s : World × Statement} {column : Column} {stamp : Stamp} (put : Puts s column stamp) :
    (column = .receivedAt ∧ ∃ t, stamp = .currentTimestamp t) ∨ (column ≠ .receivedAt ∧ ∃ t, stamp = .bound t) := by
  cases put
  case batchReceived | insertEvent => exact .inl ⟨rfl, _, rfl⟩
  all_goals exact .inr ⟨nofun, _, rfl⟩

def epoch : UtcNow := ⟨⟨0, minNanos_le_zero, zero_le_maxNanos⟩, by decide⟩

theorem not_reads_of_parse_none {text : String} (unread : parseFromRfc3339 text = none) (nanos : Int) :
    ¬ ∀ clock, (parseOrNow clock text).nanos = nanos := by
  intro reads
  have at_noon := reads noon
  have at_epoch := reads epoch
  rw [parseOrNow, unread, Option.getD_none] at at_noon at_epoch
  rw [← at_epoch] at at_noon
  revert at_noon
  decide

theorem reads_bound_iff (t : DateTime) :
    (∀ clock, (parseOrNow clock t.toRfc3339).nanos = t.nanos ∧ (parseOrNow clock t.toRfc3339).leap = false) ↔
      FourDigitYear t.day := by
  have parsed := Rfc3339.parseFromRfc3339_toRfc3339 t
  split_ifs at parsed with four
  · refine iff_of_true (fun clock => ?_) four
    rw [parseOrNow, parsed, Option.getD_some]
    exact ⟨t.nanos_toReading, rfl⟩
  · exact iff_of_false (fun reads => not_reads_of_parse_none parsed _ fun clock => (reads clock).1) four

/-- Whatever statements put into a column is read back as the instant it was, and no leap second, exactly in the columns
that are bound, and in a year of four digits. -/
theorem run_reads_back (argon2 : Argon2) (statements : List (World × Statement)) {column : Column} {text : String}
    {read : UtcNow → Reading}
    (stored : (text, read) ∈ column.reads (Machine.run (Statement.exec argon2) Db.empty statements)) :
    ∃ stamp, (∃ s ∈ statements, Puts s column stamp) ∧ text = stamp.text ∧
      ((∀ clock, (read clock).nanos = stamp.nanos ∧ (read clock).leap = false) ↔
        column ≠ .receivedAt ∧ FourDigitYear stamp.day) := by
  obtain ⟨⟨stamp, ⟨s, mem, put⟩, rfl⟩, path⟩ := Column.reads_known (run_stamped argon2 statements) stored
  refine ⟨stamp, ⟨s, mem, put⟩, rfl, ?_⟩
  simp only [path]
  rcases put.form with ⟨rfl, t, rfl⟩ | ⟨other, t, rfl⟩
  · have unread := Rfc3339.parseFromRfc3339_currentTimestamp t
    exact iff_of_false (fun reads => not_reads_of_parse_none unread _ fun clock => (reads clock).1) fun h => h.1 rfl
  · simp only [Stamp.text, Stamp.nanos, Stamp.day, reads_bound_iff, ne_eq, other, not_false_eq_true, true_and]

def noonEvent : BatchUpsertInput := ⟨⟨"web", "fp", "TypeError", none, none, noon.instant⟩, "e1", "payload"⟩

def noonDigest : List (World × Statement) := [(noonWorld 1, .call (.upsertBatchWithEvents [noonEvent]))]

theorem run_reads_back_noon : ∃ stamp, (∃ s ∈ noonDigest, Puts s .lastSeen stamp) ∧
    noon.instant.toRfc3339 = stamp.text ∧
      ((∀ clock, (parseOrNow clock noon.instant.toRfc3339).nanos = stamp.nanos ∧
          (parseOrNow clock noon.instant.toRfc3339).leap = false) ↔
        Column.lastSeen ≠ .receivedAt ∧ FourDigitYear stamp.day) :=
  run_reads_back plainArgon2 noonDigest (List.mem_singleton.mpr rfl)

/-- The column default is read back as the clock of the reader. -/
theorem receivedAt_reads_clock : ¬ ∀ (argon2 : Argon2) (statements : List (World × Statement)) (column : Column)
    (text : String) (read : UtcNow → Reading),
    (text, read) ∈ column.reads (Machine.run (Statement.exec argon2) Db.empty statements) →
      ∃ stamp, (∃ s ∈ statements, Puts s column stamp) ∧ text = stamp.text ∧ ∀ clock, (read clock).nanos = stamp.nanos := by
  intro back
  obtain ⟨stamp, -, -, reads⟩ := back plainArgon2 noonDigest .receivedAt noonReceived.currentTimestamp
    (fun clock => parseOrNow clock noonReceived.currentTimestamp) (List.mem_singleton.mpr rfl)
  exact not_reads_of_parse_none (Rfc3339.parseFromRfc3339_currentTimestamp _) _ reads

end Errex.Proof.Timestamps
