import Errex.Model.Store.Calls

/-!
# What calls keep

A rule for each transaction says that it keeps what its statements keep. From these rules follows
which tables a call leaves alone (`exec_frame`).
-/

namespace Errex.Proof
open Foundation Transaction Model Store

variable {argon2 : Argon2} {w : World} {db : Db}

theorem transact_keeps {α : Type} {invariant : Db → Prop} {tx : Tx α} (keeps : tx.Keeps invariant)
    (holds : invariant db) : invariant (transact w tx db).2 := by
  unfold transact
  cases result : tx db with
  | error error => exact holds
  | ok r =>
      obtain ⟨a, db'⟩ := r
      have after := keeps db a db' result holds
      simp only
      split
      · exact after
      · exact holds
      · exact after

theorem transact_calm {α : Type} {tx : Tx α} (calm : w.fault = none) :
    transact w tx db = match tx db with
      | .ok (a, db') => (.ok a, db')
      | .error error => (.error error, db) := by
  unfold transact
  cases tx db with
  | error error => rfl
  | ok r => simp [calm]

theorem transact_of_ok {α : Type} {tx : Tx α} {a : α} {db' : Db} (calm : w.fault = none) (ok : tx db = .ok (a, db')) :
    transact w tx db = (.ok a, db') := by
  rw [transact_calm calm, ok]

theorem transact_ok {α : Type} {tx : Tx α} {a : α} (answer : (transact w tx db).1 = .ok a) :
    tx db = .ok (a, (transact w tx db).2) := by
  unfold transact at answer ⊢
  cases result : tx db with
  | error error => simp [result] at answer
  | ok r =>
      obtain ⟨b, db'⟩ := r
      simp only [result] at answer ⊢
      split at answer <;> cases answer
      rfl

theorem transact_cases {α : Type} (w : World) (tx : Tx α) (db : Db) :
    (transact w tx db).2 = db ∨ ∃ a, tx db = .ok (a, (transact w tx db).2) := by
  unfold transact
  cases result : tx db with
  | error error => exact .inl rfl
  | ok r =>
      obtain ⟨a, db'⟩ := r
      simp only
      split
      · exact .inr ⟨a, rfl⟩
      · exact .inl rfl
      · exact .inr ⟨a, rfl⟩

section Rules

variable {invariant : Db → Prop}

theorem execute_check_keeps {statement : Db → Nat × Db} {error : DaemonError}
    (keeps : ∀ db, invariant db → invariant (statement db).2) :
    (do let updated ← execute statement
        if updated = 0 then fail error : Tx Unit).Keeps invariant := by
  refine .bind (.execute keeps) fun updated => ?_
  split_ifs
  · exact .fail _
  · exact .pure _

theorem upsertRow_keeps {input : UpsertInput} (inserts : ∀ db, invariant db → invariant (insertIssue input db).2)
    (updates : ∀ status db, invariant db → invariant (updateIssue input status db).2) :
    (upsertRow input).Keeps invariant := by
  have reads : ∀ {α : Type} (f : IssueRow → α),
      (do let row ← Tx.fetchOne (issueRow input); pure (f row) : Tx α).Keeps invariant :=
    fun f => .bind (.fetchOne _ _) fun row => .pure _
  refine .bind (.execute inserts) fun inserted => ?_
  dsimp only
  split_ifs
  · refine .bind (.fetchOne _ _) fun previous => ?_
    split_ifs
    · exact .bind (.execute (updates _)) fun _ => reads _
    · exact .bind (.execute (updates _)) fun _ => reads _
  · exact reads _

theorem upsertBatchWithEvents_keeps {now : UtcNow} (each : ∀ received input,
      (upsertInput now received input).Keeps invariant) (received : Nat → SqliteTime)
    (batch : List BatchUpsertInput) : (upsertBatchWithEvents now received batch).Keeps invariant := by
  induction batch generalizing received with
  | nil => exact .pure _
  | cons input batch ih => exact .bind (each _ input) fun _ => .bind (ih _) fun _ => .pure _

theorem setStatus_keeps {now : UtcNow} {issueId : Int} {status : IssueStatus}
    (updates : ∀ db, invariant db → invariant (updateStatus issueId status db).2) :
    (setStatus now issueId status).Keeps invariant := by
  refine .bind (.execute updates) fun updated => ?_
  split_ifs
  · exact .bind (.fail _) fun _ => .bind (.fetchOne _ _) fun _ => .pure _
  · exact .bind (.fetchOne _ _) fun _ => .pure _

theorem purgeExcessEventsPerIssue_keeps {max : Int64}
    (deletes : ∀ doomed db, invariant db → invariant { db with events := db.events.delete doomed }) :
    (purgeExcessEventsPerIssue max).Keeps invariant := by
  unfold purgeExcessEventsPerIssue
  split_ifs
  · exact .pure _
  · exact .execute fun db holds => deletes _ db holds

theorem purgeExcessIssuesPerProject_keeps {max : Int64}
    (deletes : ∀ doomed db, invariant db → invariant (deleteIssues doomed db).2) :
    (purgeExcessIssuesPerProject max).Keeps invariant := by
  unfold purgeExcessIssuesPerProject
  split_ifs
  · exact .pure _
  · exact .execute fun db holds => deletes _ db holds

theorem createProject_keeps {now : UtcNow} {uuid : Uuid} {name : String}
    (inserts : ∀ row projects db, db.projects.insert row = some projects → row.lastUsedAt = none →
      invariant db → invariant { db with projects }) :
    (createProject now uuid name).Keeps invariant := by
  intro db project db' done holds
  simp only [createProject] at done
  split at done
  · cases done
  · rename_i projects inserted
    cases done
    exact inserts _ projects db inserted rfl holds

theorem deleteRows_keeps {name : String} (deletes : ∀ doomed db, invariant db → invariant (deleteIssues doomed db).2)
    (drops : ∀ doomed db, invariant db → invariant { db with projects := db.projects.delete doomed }) :
    (do
      let (issuesDeleted, eventsDeleted) ← countProjectRows name
      let _ ← execute (deleteIssues (·.project == name))
      execute fun db => ((), { db with projects := db.projects.delete (·.name == name) })
      pure { eventsDeleted, issuesDeleted } : Tx DeleteSummary).Keeps invariant :=
  .bind (.read _) fun _ => .bind (.execute (deletes _)) fun _ =>
    .bind (.execute fun db => drops _ db) fun _ => .pure _

theorem deleteProject_keeps {now : UtcNow} {name : String}
    (deletes : ∀ doomed db, invariant db → invariant (deleteIssues doomed db).2)
    (drops : ∀ doomed db, invariant db → invariant { db with projects := db.projects.delete doomed }) :
    (deleteProject now name).Keeps invariant := by
  have rest := @deleteRows_keeps invariant name deletes drops
  refine .bind (.read _) fun project => ?_
  split_ifs
  · exact .bind (.fail _) fun _ => rest
  · exact rest

theorem projectAnswer_keeps (now : UtcNow) (name what : String) :
    (do
      match ← projectByName now name with
      | some project => pure project
      | none => fail (.notFound what) : Tx Project).Keeps invariant := by
  refine .bind (.read _) fun project => ?_
  cases project with
  | none => exact .fail _
  | some project => exact .pure _

theorem renameProject_keeps {now : UtcNow} {old new : String}
    (rekeys : ∀ projects db, db.projects.rekey (·.name == old) (fun row => { row with name := new }) = some projects →
      invariant db → invariant { db with projects })
    (renames : (renameIssues old new).Keeps invariant) : (renameProject now old new).Keeps invariant := by
  have row : (renameProjectRow old new).Keeps invariant := by
    intro db u db' done holds
    unfold renameProjectRow at done
    split at done
    · cases done
    · rename_i projects renamed
      cases done
      exact rekeys projects db renamed holds
  unfold renameProject
  split_ifs
  · exact projectAnswer_keeps now old _
  · refine .bind (.read _) fun project => ?_
    have rest := Keeps.bind row fun _ => .bind renames fun _ => projectAnswer_keeps now new s!"project {new} (post-rename)"
    split_ifs
    · exact .bind (.fail _) fun _ => rest
    · exact rest

theorem createUser_keeps {now : UtcNow} {username passwordHash : String} {role : Role}
    (inserts : ∀ row users db, db.users.insert row = some users → row.username = username →
      row.deactivatedAt = none → row.lastLoginAt = none → invariant db → invariant { db with users }) :
    (createUser now username passwordHash role).Keeps invariant := by
  intro db user db' done holds
  simp only [createUser] at done
  split at done
  · cases done
  · rename_i users inserted
    cases done
    exact inserts _ users db inserted rfl rfl rfl holds

theorem setUserDeactivated_keeps {now : UtcNow} {username : String} {deactivated : Bool}
    (updates : ∀ db, invariant db → invariant
      (updateUser username (.deactivatedAt (if deactivated then some now.instant.toRfc3339 else none)) db).2)
    (revokes : ∀ db, invariant db → invariant (deleteSessions (·.username == username) db).2) :
    (setUserDeactivated now username deactivated).Keeps invariant := by
  refine .bind (.execute updates) fun updated => ?_
  cases deactivated <;> simp only [Bool.false_eq_true, if_false, if_true] <;> split_ifs
  · exact .bind (.fail _) fun _ => .pure _
  · exact .pure _
  · exact .bind (.fail _) fun _ => .bind (.execute revokes) fun _ => .pure _
  · exact .bind (.execute revokes) fun _ => .pure _

theorem createSession_keeps {now : UtcNow} {id username : String} {ip ua : Option String}
    (inserts : ∀ row sessions db, db.sessions.insert row = some sessions → row.username = username →
      row.lastSeenAt = now.instant.toRfc3339 → invariant db → invariant { db with sessions }) :
    (createSession now id username ip ua).Keeps invariant := by
  intro db session db' done holds
  simp only [createSession] at done
  split at done
  · cases done
  · rename_i sessions inserted
    split_ifs at done
    cases done
    exact inserts _ sessions db inserted rfl rfl holds

end Rules

inductive TableName where
  | issues
  | events
  | projects
  | users
  | sessions
  | attempts
  | retention

/-- The tables that a call writes to. -/
def writes : Call → TableName → Bool
  | .upsertIssue _, .issues | .upsertBatchWithEvents _, .issues | .upsertBatchWithEvents _, .events
  | .setStatus _ _, .issues | .purgeExcessEventsPerIssue _, .events
  | .purgeExcessIssuesPerProject _, .issues | .purgeExcessIssuesPerProject _, .events
  | .purgeEventsOlderThan _, .events | .createProject _, .projects | .setProjectWebhook _ _, .projects
  | .deleteProject _, .projects | .deleteProject _, .issues | .deleteProject _, .events
  | .renameProject _ _, .projects | .renameProject _ _, .issues | .setRetentionSettings _, .retention
  | .createUser _ _ _, .users | .setUserPassword _ _, .users | .setUserRole _ _, .users
  | .setUserDeactivated _ _, .users | .setUserDeactivated _ _, .sessions
  | .deleteUser _, .users | .deleteUser _, .sessions | .touchUserLogin _ _, .users
  | .createSession _ _ _ _, .sessions | .touchSession _, .sessions | .revokeSession _, .sessions
  | .revokeUserSessions _, .sessions | .purgeSessionsIdleSince _, .sessions
  | .recordAttempt _ _ _, .attempts | .pruneAuthAttemptsOlderThan _, .attempts => true
  | _, _ => false

structure Frame (c : Call) (db db' : Db) : Prop where
  issues : writes c .issues = false → db'.issues = db.issues ∧ db'.issueSeq = db.issueSeq
  events : writes c .events = false → db'.events = db.events ∧ db'.eventSeq = db.eventSeq
  projects : writes c .projects = false → db'.projects = db.projects
  users : writes c .users = false → db'.users = db.users
  sessions : writes c .sessions = false → db'.sessions = db.sessions
  attempts : writes c .attempts = false → db'.attempts = db.attempts
  retention : writes c .retention = false → db'.retention = db.retention

theorem Frame.refl (c : Call) (db : Db) : Frame c db db :=
  ⟨fun _ => ⟨rfl, rfl⟩, fun _ => ⟨rfl, rfl⟩, fun _ => rfl, fun _ => rfl, fun _ => rfl, fun _ => rfl, fun _ => rfl⟩

theorem insertEvent_frame {received : SqliteTime} {issueId : Int} {eventId payload : String} {c : Call}
    (events : writes c .events = true) : (insertEvent received issueId eventId payload).Keeps (Frame c db) := by
  intro db₁ u db₂ done kept
  unfold insertEvent at done
  split at done
  · cases done
    exact { kept with events := fun quiet => by simp [events] at quiet }
  · split_ifs at done
    cases done
    exact { kept with events := fun quiet => by simp [events] at quiet }

theorem insertIssue_frame {input : UpsertInput} {c : Call} (issues : writes c .issues = true) {db₁ : Db}
    (kept : Frame c db db₁) : Frame c db (insertIssue input db₁).2 := by
  unfold insertIssue
  split
  · exact { kept with issues := fun quiet => by simp [issues] at quiet }
  · exact { kept with issues := fun quiet => by simp [issues] at quiet }

theorem upsertRow_frame {input : UpsertInput} {c : Call} (issues : writes c .issues = true) :
    (upsertRow input).Keeps (Frame c db) :=
  upsertRow_keeps (fun _ kept => insertIssue_frame issues kept)
    fun _ _ kept => { kept with issues := fun quiet => by simp [issues] at quiet }

theorem exec_frame (argon2 : Argon2) (w : World) (c : Call) (db : Db) : Frame c db (exec argon2 w c db).2 := by
  have frame : ∀ {α : Type} {tx : Tx α}, tx.Keeps (Frame c db) → Frame c db (transact w tx db).2 :=
    fun keeps => transact_keeps keeps (.refl c db)
  cases c
  case upsertIssue input => exact frame (.bind (upsertRow_frame rfl) fun _ => .pure _)
  case upsertBatchWithEvents batch =>
    refine frame (upsertBatchWithEvents_keeps (fun received input => ?_) _ _)
    exact .bind (upsertRow_frame rfl) fun _ => .bind (insertEvent_frame rfl) fun _ => .pure _
  case setStatus issueId status => exact frame (setStatus_keeps fun _ kept => { kept with issues := nofun })
  case purgeExcessEventsPerIssue max =>
    exact frame (purgeExcessEventsPerIssue_keeps fun _ _ kept => { kept with events := nofun })
  case purgeExcessIssuesPerProject max =>
    exact frame (purgeExcessIssuesPerProject_keeps fun _ _ kept => { kept with issues := nofun, events := nofun })
  case purgeEventsOlderThan cutoff => exact frame (.execute fun _ kept => { kept with events := nofun })
  case createProject name => exact frame (createProject_keeps fun _ _ _ _ _ kept => { kept with projects := nofun })
  case projectByName name => exact frame (.read _)
  case setProjectWebhook name url =>
    exact frame (execute_check_keeps fun _ kept => { kept with projects := nofun })
  case deleteProject name =>
    exact frame (deleteProject_keeps (fun _ _ kept => { kept with issues := nofun, events := nofun })
      fun _ _ kept => { kept with projects := nofun })
  case renameProject old new =>
    refine frame (renameProject_keeps (fun _ _ _ kept => { kept with projects := nofun }) ?_)
    intro db₁ u db₂ done kept
    unfold renameIssues at done
    split at done <;> cases done
    exact { kept with issues := nofun }
  case getRetentionSettings => exact frame (.read _)
  case setRetentionSettings settings => exact frame (.execute fun _ kept => { kept with retention := nofun })
  case userCount => exact frame (.read _)
  case createUser username hash role =>
    exact frame (createUser_keeps fun _ _ _ _ _ _ _ kept => { kept with users := nofun })
  case getUser username => exact frame (.read _)
  case getUserPasswordHash username => exact frame (.read _)
  case setUserPassword username hash => exact frame (execute_check_keeps fun _ kept => { kept with users := nofun })
  case setUserRole username role => exact frame (execute_check_keeps fun _ kept => { kept with users := nofun })
  case setUserDeactivated username deactivated =>
    exact frame (setUserDeactivated_keeps (fun _ kept => { kept with users := nofun })
      fun _ kept => { kept with sessions := nofun })
  case deleteUser username =>
    exact frame (execute_check_keeps fun _ kept => { kept with users := nofun, sessions := nofun })
  case touchUserLogin username ip =>
    exact frame (.bind (.execute fun _ kept => { kept with users := nofun }) fun _ => .pure _)
  case countActiveAdmins => exact frame (.read _)
  case createSession id username ip ua =>
    exact frame (createSession_keeps fun _ _ _ _ _ _ kept => { kept with sessions := nofun })
  case sessionForId id => exact frame (.read _)
  case touchSession id => exact frame (.execute fun _ kept => { kept with sessions := nofun })
  case revokeSession id =>
    exact frame (.bind (.execute fun _ kept => { kept with sessions := nofun }) fun _ => .pure _)
  case revokeUserSessions username => exact frame (.execute fun _ kept => { kept with sessions := nofun })
  case purgeSessionsIdleSince cutoff => exact frame (.execute fun _ kept => { kept with sessions := nofun })
  case recordAttempt username ip success => exact frame (.execute fun _ kept => { kept with attempts := nofun })
  case countRecentFailuresForUsername username since => exact frame (.read _)
  case countRecentFailuresForIp ip since => exact frame (.read _)
  case pruneAuthAttemptsOlderThan cutoff => exact frame (.execute fun _ kept => { kept with attempts := nofun })
  case utcNow => exact .refl _ db
  case generateSessionId => exact .refl _ db
  case hashPassword plain => exact .refl _ db
  case verifyPassword storedHash plain => exact .refl _ db

end Errex.Proof
