import Errex.Proof.Retention.Order

/-!
# What a tick leaves

After a tick that meets no error, no issue has more events and no project more issues than the settings allow, and one more
tick at the same time changes nothing.
-/

namespace Errex.Proof.Retention
open Foundation Ranking Process Model Store Model.Retention

section Bounds

variable {settings : RetentionSettings} {cutoff : Option DateTime} {db : Db}

theorem newest_nodup {ρ : Type} (text : ρ → String) {id : ρ → Int} {rows : List ρ} (ids : (rows.map id).Nodup) :
    (rows.map (newest text id)).Nodup := by
  refine (List.nodup_map_iff_inj_on (List.Nodup.of_map _ ids)).mpr ?_
  intro a mem b mem' same
  have equal : id a = id b := (Prod.mk.inj (toLex.injective (OrderDual.toDual.injective same))).2
  exact List.inj_on_of_nodup_map ids mem mem' equal

theorem purged_issues (settings : RetentionSettings) (cutoff : Option DateTime) (db : Db) :
    (purged settings cutoff db).issues.rows = db.issues.rows.filter (keepsIssue settings.issuesPerProjectMax db.issues.rows) := by
  simp [purged, Table.delete]

theorem purged_events (settings : RetentionSettings) (cutoff : Option DateTime) (db : Db) :
    (purged settings cutoff db).events.rows = (db.events.rows.filter (keepsEvent settings.eventsPerIssueMax db.events.rows)).filter
      fun event => !old cutoff event && !orphaned settings.issuesPerProjectMax db.issues.rows event := by
  rw [List.filter_filter]
  refine List.filter_congr fun event _ => ?_
  rw [Bool.not_or, Bool.not_or, Bool.not_not]
  cases keepsEvent settings.eventsPerIssueMax db.events.rows event <;> simp

theorem closed_keepsIssue (max : Int64) (issues : List IssueRow) :
    Closed sameProject newerIssue (keepsIssue max issues) := by
  apply closed_within
  · intro a b c ab bc
    simp only [sameProject, beq_iff_eq] at *
    exact ab.trans bc
  · intro a b c ab bc
    simp only [newerIssue, descending_iff] at *
    exact ab.trans bc

theorem sameProject_iff (a b : IssueRow) : sameProject a b = true ↔ a.project = b.project := beq_iff_eq

theorem sameIssue_iff (a b : EventRow) : sameIssue a b = true ↔ a.issueId = b.issueId := beq_iff_eq

def issueRank : IssueRow → (String ×ₗ Int)ᵒᵈ := newest (·.lastSeen) (·.id)

theorem newerIssue_iff (a b : IssueRow) : newerIssue a b = true ↔ issueRank a < issueRank b := descending_iff

theorem newerEvent_iff (a b : EventRow) : newerEvent a b = true ↔ byTime a < byTime b := descending_iff

theorem cap_of_pos {max : Int64} (on : 0 < max) : cap max = some max.toInt ∧ 0 ≤ max.toInt :=
  ⟨if_neg (Int64.not_le.mpr on), (Int64.lt_iff_toInt_lt.mp on).le⟩

theorem issues_le (keys : PrimaryKeys db) (on : 0 < settings.issuesPerProjectMax) (project : String) :
    ((purged settings cutoff db).issues.count (·.project == project) : Int) ≤ settings.issuesPerProjectMax.toInt := by
  obtain ⟨capped, nonneg⟩ := cap_of_pos on
  have distinct : (db.issues.rows.map issueRank).Nodup := newest_nodup (fun row : IssueRow => row.lastSeen) keys.issues
  have named : ∀ row : IssueRow, (row.project == project) = true → row.project = project := fun _ => beq_iff_eq.mp
  rw [Table.count, purged_issues, keepsIssue, capped]
  exact countP_within_le sameProject_iff newerIssue_iff distinct nonneg named

theorem events_le (keys : PrimaryKeys db) (on : 0 < settings.eventsPerIssueMax) (issueId : Int) :
    ((purged settings cutoff db).events.count (·.issueId == issueId) : Int) ≤ settings.eventsPerIssueMax.toInt := by
  obtain ⟨capped, nonneg⟩ := cap_of_pos on
  have distinct : (db.events.rows.map byTime).Nodup :=
    newest_nodup (fun event : EventRow => event.receivedAt.currentTimestamp) keys.events
  have owned : ∀ event : EventRow, (event.issueId == issueId) = true → event.issueId = issueId := fun _ => beq_iff_eq.mp
  have fewer : (purged settings cutoff db).events.count (·.issueId == issueId) ≤
      (db.events.rows.filter (keepsEvent settings.eventsPerIssueMax db.events.rows)).countP (·.issueId == issueId) := by
    rw [Table.count, purged_events, List.countP_filter]
    exact List.countP_mono_left fun event _ both => (Bool.and_eq_true_iff.mp both).1
  rw [keepsEvent, capped] at fewer
  exact (Nat.cast_le.mpr fewer).trans (countP_within_le sameIssue_iff newerEvent_iff distinct nonneg owned)

theorem purged_purged (settings : RetentionSettings) (cutoff : Option DateTime) (db : Db) :
    purged settings cutoff (purged settings cutoff db) = purged settings cutoff db := by
  have issues : (purged settings cutoff db).issues.rows.filter
      (keepsIssue settings.issuesPerProjectMax (purged settings cutoff db).issues.rows) =
        (purged settings cutoff db).issues.rows := by
    rw [purged_issues]
    refine (within_filter (closed_keepsIssue _ _) (cap settings.issuesPerProjectMax) db.issues.rows).trans ?_
    exact List.filter_eq_self.mpr fun row mem => (List.mem_filter.mp mem).2
  have orphans : ∀ event, orphaned settings.issuesPerProjectMax (purged settings cutoff db).issues.rows event = false := by
    intro event
    rw [orphaned, List.any_eq_false]
    intro row mem dropped
    have kept := List.filter_eq_self.mp issues row mem
    rw [kept] at dropped
    cases dropped
  have events : ((purged settings cutoff db).events.rows.filter
      (keepsEvent settings.eventsPerIssueMax (purged settings cutoff db).events.rows)) =
        (purged settings cutoff db).events.rows := by
    have closed : Closed sameIssue newerEvent fun event =>
        !old cutoff event && !orphaned settings.issuesPerProjectMax db.issues.rows event := by
      intro event other kept same newer
      rw [Bool.and_eq_true] at kept ⊢
      exact ⟨closed_old cutoff event other kept.1 same newer, closed_orphaned _ _ event other kept.2 same newer⟩
    rw [purged_events, ← filter_keepsEvent closed]
    refine (filter_keepsEvent (closed_keepsEvent _ _) settings.eventsPerIssueMax _).trans ?_
    exact List.filter_eq_self.mpr fun event mem => (List.mem_filter.mp mem).2
  refine tables_ext (purged settings cutoff db) ?_ ?_
  · rw [← purged_issues settings cutoff (purged settings cutoff db)] at issues
    exact issues
  · refine (purged_events settings cutoff (purged settings cutoff db)).trans ?_
    rw [events]
    refine List.filter_eq_self.mpr fun event mem => ?_
    rw [orphans, Bool.not_false, Bool.and_true]
    rw [purged_events] at mem
    exact (Bool.and_eq_true_iff.mp (List.mem_filter.mp mem).2).1

end Bounds

def swept (attempts sessions : DateTime) (db : Db) : Db :=
  (deleteSessions (fun row => textLt row.lastSeenAt sessions.toRfc3339)
    { db with attempts := db.attempts.filter fun row => !textLt row.ts attempts.toRfc3339 }).2

theorem delete_delete {ρ κ : Type} {key : ρ → κ} (t : Table ρ κ key) (doomed : ρ → Bool) :
    (t.delete doomed).delete doomed = t.delete doomed := by
  simp only [Table.delete, List.filter_filter, Bool.and_self]

theorem swept_swept (attempts sessions : DateTime) (db : Db) :
    swept attempts sessions (swept attempts sessions db) = swept attempts sessions db := by
  simp only [swept, deleteSessions, delete_delete, List.filter_filter, Bool.and_self]

theorem swept_purged (settings : RetentionSettings) (cutoff : Option DateTime) (attempts sessions : DateTime) (db : Db) :
    purged settings cutoff (swept attempts sessions db) = swept attempts sessions (purged settings cutoff db) := rfl

variable {argon2 : Argon2} {settings : RetentionSettings} {choices : Nat → World}

theorem cutoff_alone {α : Type} (span : Option Duration) (f : DateTime → Handler α) (db : Db) :
    (cutoff span >>= f).alone (exec argon2) choices db =
      match span.bind (choices 0).now.instant.sub with
      | some c => (f c).alone (exec argon2) (fun n => choices (n + 1)) db
      | none => (.panic, db) := by
  cases span with
  | none => rfl
  | some span =>
      rw [Option.bind_some]
      show ((ofOption ((choices 0).now.instant.sub span) >>= f).alone (exec argon2) (fun n => choices (n + 1)) db) = _
      cases (choices 0).now.instant.sub span <;> rfl

def purgeIdle : Handler Unit := do
  let sessionCutoff ← cutoff (Duration.days 30)
  let _ ← ask (.purgeSessionsIdleSince sessionCutoff)

theorem purgeIdle_alone (calm : ∀ n, (choices n).fault = none) :
    (∃ sessions : DateTime, ∀ db, purgeIdle.alone (exec argon2) choices db =
        (.ok (), (deleteSessions (fun row => textLt row.lastSeenAt sessions.toRfc3339) db).2)) ∨
      ∀ db, (purgeIdle.alone (exec argon2) choices db).1 = .panic := by
  have start : ∀ db, purgeIdle.alone (exec argon2) choices db = _ := fun db => cutoff_alone (Duration.days 30) _ db
  cases month : (Duration.days 30).bind (choices 0).now.instant.sub with
  | none =>
      right
      intro db
      rw [start db, month]
  | some sessions =>
      left
      refine ⟨sessions, fun db => ?_⟩
      have deleted : (exec argon2 (choices 1) (.purgeSessionsIdleSince sessions) db).2 =
          (deleteSessions (fun row => textLt row.lastSeenAt sessions.toRfc3339) db).2 := by
        rw [exec, transact_calm (calm 1)]
        rfl
      rw [start db, month]
      exact congrArg (Prod.mk _) deleted

theorem purgeAuth_alone (calm : ∀ n, (choices n).fault = none) :
    (∃ attempts sessions, ∀ db, purgeAuth.alone (exec argon2) choices db = (.ok (), swept attempts sessions db)) ∨
      ∀ db, (purgeAuth.alone (exec argon2) choices db).1 = .panic := by
  have start : ∀ db, purgeAuth.alone (exec argon2) choices db = _ := fun db =>
    @cutoff_alone argon2 choices Unit (Duration.hours 24) (fun attempts =>
      ask (.pruneAuthAttemptsOlderThan attempts) >>= fun _ => purgeIdle) db
  cases day : (Duration.hours 24).bind (choices 0).now.instant.sub with
  | none =>
      right
      intro db
      rw [start db, day]
  | some attempts =>
      have pruned : ∀ db, purgeAuth.alone (exec argon2) choices db = purgeIdle.alone (exec argon2) (fun n => choices (n + 2))
          { db with attempts := db.attempts.filter fun row => !textLt row.ts attempts.toRfc3339 } := by
        intro db
        have pruned : (exec argon2 (choices 1) (.pruneAuthAttemptsOlderThan attempts) db).2 =
            { db with attempts := db.attempts.filter fun row => !textLt row.ts attempts.toRfc3339 } := by
          rw [exec, transact_calm (calm 1)]
          rfl
        rw [start db, day, ← pruned]
        rfl
      rcases @purgeIdle_alone argon2 (fun n => choices (n + 2)) (fun n => calm (n + 2)) with ⟨sessions, ends⟩ | panics
      · exact .inl ⟨attempts, sessions, fun db => (pruned db).trans (ends _)⟩
      · exact .inr fun db => by rw [pruned db, panics]

theorem purgeExcess_alone (calm : ∀ n, (choices n).fault = none) (settings : RetentionSettings) (rest : Handler Unit) :
    ∃ k, ∀ db, (purgeExcess settings >>= fun _ => rest).alone (exec argon2) choices db =
      rest.alone (exec argon2) (fun n => choices (n + k)) ((purges settings none).foldl effect db) := by
  have effects : ∀ n c db, c ∈ purges settings none → (exec argon2 (choices n) c db).2 = effect db c :=
    fun n c db mem => exec_purge (calm n) mem db
  unfold purgeExcess
  unfold purges at effects ⊢
  split_ifs at effects ⊢ with events issues issues
  · refine ⟨2, fun db => ?_⟩
    show rest.alone _ _ (exec argon2 (choices 1) _ (exec argon2 (choices 0) _ db).2).2 = _
    rw [effects 1 _ _ (by simp), effects 0 _ _ (by simp)]
    rfl
  · refine ⟨1, fun db => ?_⟩
    show rest.alone _ _ (exec argon2 (choices 0) _ db).2 = _
    rw [effects 0 _ _ (by simp)]
    rfl
  · refine ⟨1, fun db => ?_⟩
    show rest.alone _ _ (exec argon2 (choices 0) _ db).2 = _
    rw [effects 0 _ _ (by simp)]
    rfl
  · exact ⟨0, fun db => rfl⟩

theorem purgeLater_alone (calm : ∀ n, (choices n).fault = none) (settings : RetentionSettings) :
    (∃ attempts sessions, ∀ db, (purgeExcess settings >>= fun _ => purgeAuth).alone (exec argon2) choices db =
        (.ok (), swept attempts sessions ((purges settings none).foldl effect db))) ∨
      ∀ db, ((purgeExcess settings >>= fun _ => purgeAuth).alone (exec argon2) choices db).1 = .panic := by
  obtain ⟨k, later⟩ := @purgeExcess_alone argon2 choices calm settings purgeAuth
  rcases @purgeAuth_alone argon2 (fun n => choices (n + k)) (fun n => calm (n + k)) with ⟨attempts, sessions, ends⟩ | panics
  · exact .inl ⟨attempts, sessions, fun db => (later db).trans (ends _)⟩
  · exact .inr fun db => by rw [later db, panics]

theorem purgeAged_alone (calm : ∀ n, (choices n).fault = none) (settings : RetentionSettings) (bootDays : UInt32)
    (on : 0 < effectiveDays settings bootDays) (rest : Handler Unit) (db : Db) :
    (purgeAgedEvents settings bootDays >>= fun _ => rest).alone (exec argon2) choices db =
      match (Duration.days (effectiveDays settings bootDays)).bind (choices 0).now.instant.sub with
      | some c => rest.alone (exec argon2) (fun n => choices (n + 2)) (deleteEvents (old (some c)) db)
      | none => (.panic, db) := by
  rw [purgeAgedEvents, if_pos on, Process.bind_assoc, cutoff_alone]
  cases back : (Duration.days (effectiveDays settings bootDays)).bind (choices 0).now.instant.sub with
  | none => rfl
  | some c =>
      have mem : Call.purgeEventsOlderThan c ∈ purges settings (some c) := by simp [purges]
      show rest.alone _ _ (exec argon2 (choices 1) (.purgeEventsOlderThan c) db).2 = _
      rw [exec_purge (calm 1) mem]
      rfl

def eventCutoff (settings : RetentionSettings) (bootDays : UInt32) (now : UtcNow) : Option DateTime :=
  if 0 < effectiveDays settings bootDays then (Duration.days (effectiveDays settings bootDays)).bind now.instant.sub else none

theorem purge_alone (calm : ∀ n, (choices n).fault = none) (settings : RetentionSettings) (bootDays : UInt32) :
    (∃ attempts sessions, ∀ db,
      (purgeAgedEvents settings bootDays >>= fun _ => purgeExcess settings >>= fun _ => purgeAuth).alone (exec argon2) choices db =
        (.ok (), swept attempts sessions (purged settings (eventCutoff settings bootDays (choices 0).now) db))) ∨
    ∀ db, ((purgeAgedEvents settings bootDays >>= fun _ => purgeExcess settings >>= fun _ => purgeAuth).alone
      (exec argon2) choices db).1 = .panic := by
  unfold eventCutoff
  by_cases on : 0 < effectiveDays settings bootDays
  · have start := @purgeAged_alone argon2 choices calm settings bootDays on (purgeExcess settings >>= fun _ => purgeAuth)
    rw [if_pos on]
    cases back : (Duration.days (effectiveDays settings bootDays)).bind (choices 0).now.instant.sub with
    | none =>
        right
        intro db
        rw [start db, back]
    | some c =>
        rcases @purgeLater_alone argon2 (fun n => choices (n + 2)) (fun n => calm (n + 2)) settings with
          ⟨attempts, sessions, ends⟩ | panics
        · refine .inl ⟨attempts, sessions, fun db => ?_⟩
          simp only [start db, back, ends, ← foldl_purges]
          rfl
        · right
          intro db
          simp only [start db, back, panics]
  · have start : purgeAgedEvents settings bootDays = .ret () := by
      rw [purgeAgedEvents, if_neg on]
      rfl
    rw [start, if_neg on]
    rcases @purgeLater_alone argon2 choices calm settings with ⟨attempts, sessions, ends⟩ | panics
    · refine .inl ⟨attempts, sessions, fun db => ?_⟩
      rw [← foldl_purges]
      exact ends db
    · exact .inr panics

/-- What a tick makes of a database: the bounds hold, and rows are deleted from four tables and nothing else. -/
structure Trimmed (settings : RetentionSettings) (cutoff : Option DateTime) (before after : Db) : Prop where
  ages : ∀ event ∈ after.events.rows, old cutoff event = false
  events : 0 < settings.eventsPerIssueMax → ∀ issueId,
    (after.events.count (·.issueId == issueId) : Int) ≤ settings.eventsPerIssueMax.toInt
  issues : 0 < settings.issuesPerProjectMax → ∀ project,
    (after.issues.count (·.project == project) : Int) ≤ settings.issuesPerProjectMax.toInt
  rows : after.issues.rows.Sublist before.issues.rows ∧ after.events.rows.Sublist before.events.rows ∧
    after.sessions.rows.Sublist before.sessions.rows ∧ after.attempts.Sublist before.attempts
  others : after = { before with
    issues := after.issues, events := after.events, sessions := after.sessions, attempts := after.attempts }

theorem trimmed (settings : RetentionSettings) (cutoff : Option DateTime) (attempts sessions : DateTime) {db : Db}
    (keys : PrimaryKeys db) : Trimmed settings cutoff db (swept attempts sessions (purged settings cutoff db)) where
  ages event mem := by
    have kept : event ∈ (purged settings cutoff db).events.rows := mem
    rw [purged_events, List.mem_filter, Bool.and_eq_true, Bool.not_eq_true'] at kept
    exact kept.2.1
  events on issueId := events_le keys on issueId
  issues on project := @issues_le settings cutoff db keys on project
  rows := ⟨List.filter_sublist, List.filter_sublist, List.filter_sublist, List.filter_sublist⟩
  others := rfl

theorem swept_purged_again (settings : RetentionSettings) (cutoff : Option DateTime) (attempts sessions : DateTime) (db : Db) :
    swept attempts sessions (purged settings cutoff (swept attempts sessions (purged settings cutoff db))) =
      swept attempts sessions (purged settings cutoff db) := by
  rw [swept_purged, purged_purged, swept_swept]

/-- Without errors, a tick that reaches its end has brought issues and events within the settings, and only by deleting rows;
the same tick once more changes nothing. -/
theorem runOneTick_trims (argon2 : Argon2) (bootDays : UInt32) (choices : Nat → World)
    (calm : ∀ n, (choices n).fault = none) (db : Db) (keys : PrimaryKeys db)
    (through : ((runOneTick bootDays).alone (exec argon2) choices db).1 = .ok ()) :
    let settings := db.retention.getD ⟨0, 0, 0⟩
    let after := ((runOneTick bootDays).alone (exec argon2) choices db).2
    Trimmed settings (eventCutoff settings bootDays (choices 1).now) db after ∧
      (runOneTick bootDays).alone (exec argon2) choices after = (.ok (), after) := by
  intro settings after
  have start : ∀ db' : Db, db'.retention = db.retention → (runOneTick bootDays).alone (exec argon2) choices db' =
      (purgeAgedEvents settings bootDays >>= fun _ => purgeExcess settings >>= fun _ => purgeAuth).alone (exec argon2)
        (fun n => choices (n + 1)) db' := by
    intro db' same
    have reads : exec argon2 (choices 0) .getRetentionSettings db' = (.ok settings, db') := by
      rw [exec, transact_calm (calm 0), getRetentionSettings, Transaction.read_run]
      rw [same]
      rfl
    have next : ∀ f : Call.getRetentionSettings.Reply → Handler Unit,
        (ask .getRetentionSettings >>= f).alone (exec argon2) choices db' =
          (f (exec argon2 (choices 0) .getRetentionSettings db').1).alone (exec argon2) (fun n => choices (n + 1))
            (exec argon2 (choices 0) .getRetentionSettings db').2 := fun _ => rfl
    rw [runOneTick, next, reads]
  rcases @purge_alone argon2 (fun n => choices (n + 1)) (fun n => calm (n + 1)) settings bootDays with
    ⟨attempts, sessions, ends⟩ | panics
  · have first : after = swept attempts sessions (purged settings (eventCutoff settings bootDays (choices 1).now) db) := by
      simp only [after, start db rfl, ends]
    rw [first]
    refine ⟨trimmed settings _ attempts sessions keys, ?_⟩
    refine (start (swept attempts sessions (purged settings _ db)) rfl).trans ?_
    rw [ends, swept_purged_again]
  · rw [start db rfl, panics] at through
    cases through

theorem runOneTick_trims_twoIssues :
    let db : Db := { twoIssues with retention := some ⟨1, 1, 0⟩ }
    let after := ((runOneTick 0).alone (exec plainArgon2) (fun _ => noonWorld 0) db).2
    (after.issues.count (·.project == "web") : Int) ≤ 1 := by
  intro db after
  have keys : PrimaryKeys db := ⟨by decide, by decide⟩
  have through : ((runOneTick 0).alone (exec plainArgon2) (fun _ => noonWorld 0) db).1 = .ok () := by decide +kernel
  exact (runOneTick_trims plainArgon2 0 (fun _ => noonWorld 0) (fun _ => rfl) db keys through).1.issues (by decide) "web"

end Errex.Proof.Retention
