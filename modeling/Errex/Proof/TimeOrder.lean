import Errex.Foundation.Ranking
import Errex.Proof.Timestamps

/-!
# Queries that compare times as texts

SQLite compares the texts of the columns `last_seen`, `last_seen_at` and `ts` byte by byte. In the years 0000 to 9999 that
is the order of the instants (`toRfc3339_lt_iff`), so every query on these columns is the query on the instants that the
texts stand for.
-/

namespace Errex.Proof.Timestamps
open Foundation Calendar Ranking Text Transaction Model Store

def Dated (text : String) : Prop := ∃ t : DateTime, FourDigitYear t.day ∧ text = t.toRfc3339

def nanosOf (text : String) : Int := (parseFromRfc3339 text).elim 0 Reading.nanos

theorem nanosOf_toRfc3339 {t : DateTime} (four : FourDigitYear t.day) : nanosOf t.toRfc3339 = t.nanos := by
  rw [nanosOf, Rfc3339.parseFromRfc3339_toRfc3339, if_pos four]
  exact t.nanos_toReading

theorem toRfc3339_inj {t u : DateTime} (ht : FourDigitYear t.day) (hu : FourDigitYear u.day) :
    t.toRfc3339 = u.toRfc3339 ↔ t = u := by
  constructor
  · intro same
    have parsed := congrArg parseFromRfc3339 same
    rw [Rfc3339.parseFromRfc3339_toRfc3339, Rfc3339.parseFromRfc3339_toRfc3339, if_pos ht, if_pos hu] at parsed
    exact congrArg Reading.instant (Option.some.inj parsed)
  · rintro rfl
    rfl

variable {s t : String}

theorem textLt_eq (hs : Dated s) (ht : Dated t) : textLt s t = decide (nanosOf s < nanosOf t) := by
  obtain ⟨a, four, rfl⟩ := hs
  obtain ⟨b, four', rfl⟩ := ht
  rw [Bool.eq_iff_iff, decide_eq_true_iff, toRfc3339_lt_iff four four', nanosOf_toRfc3339 four, nanosOf_toRfc3339 four']

theorem text_eq_iff (hs : Dated s) (ht : Dated t) : s = t ↔ nanosOf s = nanosOf t := by
  obtain ⟨a, four, rfl⟩ := hs
  obtain ⟨b, four', rfl⟩ := ht
  rw [toRfc3339_inj four four', nanosOf_toRfc3339 four, nanosOf_toRfc3339 four']
  constructor
  · rintro rfl
    rfl
  · intro same
    cases a
    cases b
    cases same
    rfl

theorem textLt_bound (hs : Dated s) {bound : DateTime} (four : FourDigitYear bound.day) :
    textLt s bound.toRfc3339 = decide (nanosOf s < bound.nanos) := by
  rw [textLt_eq hs ⟨bound, four, rfl⟩, nanosOf_toRfc3339 four]

section

variable {ρ : Type} {text : ρ → String} {rows : List ρ}

theorem orders_newest (dated : ∀ row ∈ rows, Dated (text row)) :
    Orders (fun row => OrderDual.toDual (nanosOf (text row))) (fun a b => !textLt (text a) (text b)) rows := by
  intro a mem b mem'
  dsimp only
  rw [textLt_eq (dated a mem) (dated b mem'), Bool.not_eq_true', decide_eq_false_iff_not, not_lt, OrderDual.toDual_le_toDual]

theorem sorted_newest (dated : ∀ row ∈ rows, Dated (text row)) :
    (rows.mergeSort fun a b => !textLt (text a) (text b)).Pairwise fun a b => nanosOf (text b) ≤ nanosOf (text a) :=
  (orders_newest dated).sorted.imp OrderDual.toDual_le_toDual.mp

def later (text : ρ → String) (id : ρ → Int) (a b : ρ) : Bool :=
  decide (nanosOf (text b) < nanosOf (text a)) || (nanosOf (text a) == nanosOf (text b) && decide (id b < id a))

theorem rowNumber_later (id : ρ → Int) (partner : ρ → ρ → Bool) (dated : ∀ row ∈ rows, Dated (text row)) {row : ρ}
    (mem : row ∈ rows) : rowNumber partner (descending text id) rows row = rowNumber partner (later text id) rows row := by
  rw [rowNumber, rowNumber]
  congr 1
  apply List.countP_congr
  intro other mem'
  have same : (text other == text row) = (nanosOf (text other) == nanosOf (text row)) := by
    rw [Bool.eq_iff_iff, beq_iff_eq, beq_iff_eq]
    exact text_eq_iff (dated other mem') (dated row mem)
  rw [descending, later, same, textLt_eq (dated row mem) (dated other mem')]

theorem deleteIssues_congr {doomed doomed' : IssueRow → Bool} {db : Db}
    (same : ∀ row ∈ db.issues.rows, doomed row = doomed' row) : deleteIssues doomed db = deleteIssues doomed' db := by
  have owners : ∀ event : EventRow, (db.issues.rows.any fun row => doomed row && row.id == event.issueId) =
      db.issues.rows.any fun row => doomed' row && row.id == event.issueId := by
    intro event
    rw [Bool.eq_iff_iff, List.any_eq_true, List.any_eq_true]
    exact exists_congr fun row => and_congr_right fun mem => by rw [same row mem]
  simp only [deleteIssues, Table.count_congr same, Table.delete_congr same, owners]

end

/-- The columns by which times are compared hold texts of instants in the years 0000 to 9999. -/
structure Timely (db : Db) : Prop where
  issues : ∀ row ∈ db.issues.rows, Dated row.lastSeen
  sessions : ∀ row ∈ db.sessions.rows, Dated row.lastSeenAt
  attempts : ∀ row ∈ db.attempts, Dated row.ts

/-- The queries order and select the rows by the instants behind their texts. -/
structure OrdersByTime (db : Db) : Prop where
  loadIssues : ∀ now, ∃ rows : List IssueRow, rows.Perm db.issues.rows ∧
    rows.Pairwise (fun a b => nanosOf b.lastSeen ≤ nanosOf a.lastSeen) ∧
      Store.loadIssues now db = .ok (rows.map (Issue.ofRow now), db)
  listUserSessions : ∀ now username, ∃ rows : List SessionRow,
    rows.Perm (db.sessions.rows.filter (·.username == username)) ∧
      rows.Pairwise (fun a b => nanosOf b.lastSeenAt ≤ nanosOf a.lastSeenAt) ∧
        Store.listUserSessions now username db = .ok (rows.map (Session.ofRow now), db)
  excessIssues : ∀ max, 0 < max → purgeExcessIssuesPerProject max db = .ok (deleteIssues (fun row =>
    decide (max.toInt < rowNumber (fun a b => a.project == b.project) (later (·.lastSeen) (·.id)) db.issues.rows row)) db)
  failuresForUsername : ∀ username since, FourDigitYear since.day →
    countRecentFailuresForUsername username since db = .ok (db.attempts.countP fun row =>
      row.username == some username && (!row.success && decide (since.nanos ≤ nanosOf row.ts)), db)
  failuresForIp : ∀ ip since, FourDigitYear since.day →
    countRecentFailuresForIp ip since db = .ok (db.attempts.countP fun row =>
      row.ip == ip && (!row.success && decide (since.nanos ≤ nanosOf row.ts)), db)
  pruned : ∀ cutoff, FourDigitYear cutoff.day → pruneAuthAttemptsOlderThan cutoff db =
    .ok (db.attempts.countP fun row => decide (nanosOf row.ts < cutoff.nanos),
      { db with attempts := db.attempts.filter fun row => decide (cutoff.nanos ≤ nanosOf row.ts) })
  idle : ∀ cutoff, FourDigitYear cutoff.day →
    purgeSessionsIdleSince cutoff db = .ok (deleteSessions (fun row => decide (nanosOf row.lastSeenAt < cutoff.nanos)) db)

variable {db : Db}

theorem recentFailure_eq {row : AttemptRow} (dated : Dated row.ts) {since : DateTime} (four : FourDigitYear since.day) :
    recentFailure since row = (!row.success && decide (since.nanos ≤ nanosOf row.ts)) := by
  rw [recentFailure, textLt_bound dated four, ← decide_not, decide_eq_decide.mpr Int.not_lt]

theorem Timely.orders (timely : Timely db) : OrdersByTime db where
  loadIssues now := ⟨_, List.mergeSort_perm .., sorted_newest timely.issues, rfl⟩
  listUserSessions now username := by
    refine ⟨_, List.mergeSort_perm .., ?_, rfl⟩
    exact sorted_newest fun row mem => timely.sessions row (List.mem_of_mem_filter mem)
  excessIssues max positive := by
    rw [purgeExcessIssuesPerProject, if_neg (Int64.not_le.mpr positive), execute_run]
    congr 1
    apply deleteIssues_congr
    intro row mem
    rw [rowNumber_later _ _ timely.issues mem]
  failuresForUsername username since four := by
    rw [countRecentFailuresForUsername, read_run]
    congr 2
    apply List.countP_congr
    intro row mem
    rw [recentFailure_eq (timely.attempts row mem) four]
  failuresForIp ip since four := by
    rw [countRecentFailuresForIp, read_run]
    congr 2
    apply List.countP_congr
    intro row mem
    rw [recentFailure_eq (timely.attempts row mem) four]
  pruned cutoff four := by
    have old : ∀ row ∈ db.attempts, textLt row.ts cutoff.toRfc3339 = decide (nanosOf row.ts < cutoff.nanos) :=
      fun row mem => textLt_bound (timely.attempts row mem) four
    have counted : (db.attempts.countP fun row => textLt row.ts cutoff.toRfc3339) =
        db.attempts.countP fun row => decide (nanosOf row.ts < cutoff.nanos) :=
      List.countP_congr fun row mem => by rw [old row mem]
    have kept : (db.attempts.filter fun row => !textLt row.ts cutoff.toRfc3339) =
        db.attempts.filter fun row => decide (cutoff.nanos ≤ nanosOf row.ts) :=
      List.filter_congr fun row mem => by rw [old row mem, ← decide_not, decide_eq_decide.mpr Int.not_lt]
    rw [pruneAuthAttemptsOlderThan, execute_run]
    dsimp only
    rw [counted, kept]
  idle cutoff four := by
    have old : ∀ row ∈ db.sessions.rows,
        textLt row.lastSeenAt cutoff.toRfc3339 = decide (nanosOf row.lastSeenAt < cutoff.nanos) :=
      fun row mem => textLt_bound (timely.sessions row mem) four
    rw [purgeSessionsIdleSince, execute_run, deleteSessions, deleteSessions, Table.count_congr old, Table.delete_congr old]

def BindsFourDigits (s : World × Statement) : Prop :=
  FourDigitYear s.1.now.instant.day ∧ ∀ column t, Puts s column (.bound t) → FourDigitYear t.day

def FourDigits (column : Column) : Stamp → Prop
  | .bound t => FourDigitYear t.day
  | .currentTimestamp _ => column = .receivedAt

theorem BindsFourDigits.puts {s : World × Statement} (binds : BindsFourDigits s) {column : Column} {stamp : Stamp}
    (put : Puts s column stamp) : FourDigits column stamp := by
  rcases put.form with ⟨rfl, t, rfl⟩ | ⟨-, t, rfl⟩
  · rfl
  · exact binds.2 column t put

theorem dated_of_known {column : Column} {text : String} (other : column ≠ .receivedAt)
    (known : Known FourDigits column text) : Dated text := by
  obtain ⟨stamp, four, rfl⟩ := known
  cases stamp with
  | bound t => exact ⟨t, four, rfl⟩
  | currentTimestamp s => exact absurd four other

def AttemptsDated (db : Db) : Prop := ∀ row ∈ db.attempts, Dated row.ts

theorem call_dated (argon2 : Argon2) (w : World) (c : Call) (four : FourDigitYear w.now.instant.day)
    (dated : AttemptsDated db) : AttemptsDated (exec argon2 w c db).2 := by
  have frame := (exec_frame argon2 w c db).attempts
  cases c
  case recordAttempt username ip success =>
    refine transact_keeps (.execute fun db dated row mem => ?_) dated
    rcases List.mem_append.mp mem with old | new
    · exact dated row old
    · obtain rfl := List.mem_singleton.mp new
      exact ⟨w.now.instant, four, rfl⟩
  case pruneAuthAttemptsOlderThan cutoff =>
    exact transact_keeps (.execute fun db dated row mem => dated row (List.mem_of_mem_filter mem)) dated
  all_goals
    intro row mem
    rw [frame rfl] at mem
    exact dated row mem

theorem insertEvent_dated {received : SqliteTime} {issueId : Int} {eventId payload : String} :
    (insertEvent received issueId eventId payload).Keeps AttemptsDated := by
  intro db u db' done dated
  unfold insertEvent at done
  split at done
  · cases done
    exact dated
  · split_ifs at done
    cases done
    exact dated

theorem statement_dated (argon2 : Argon2) (s : World × Statement) (four : FourDigitYear s.1.now.instant.day)
    (dated : AttemptsDated db) : AttemptsDated (Statement.exec argon2 db s) := by
  obtain ⟨w, statement⟩ := s
  cases statement with
  | call c => exact call_dated argon2 w c four dated
  | insertEvent issueId eventId payload => exact transact_keeps insertEvent_dated dated
  | touchProjectUsed name => exact transact_keeps (.execute fun _ dated => dated) dated
  | rotateToken name =>
      have answer := @projectAnswer_keeps AttemptsDated w.now name s!"project {name} (post-rotate)"
      refine transact_keeps (.bind (.execute fun _ dated => dated) fun updated => ?_) dated
      split_ifs
      · exact .bind (.fail _) fun _ => answer
      · exact answer
  | recordWebhookAttempt name status => exact transact_keeps (.execute fun _ dated => dated) dated

theorem statement_timely (argon2 : Argon2) (s : World × Statement) (binds : BindsFourDigits s)
    (holds : Stamped FourDigits db ∧ AttemptsDated db) :
    Stamped FourDigits (Statement.exec argon2 db s) ∧ AttemptsDated (Statement.exec argon2 db s) :=
  ⟨statement_stamped argon2 s (fun _ _ put => binds.puts put) holds.1, statement_dated argon2 s binds.1 holds.2⟩

theorem run_timely (argon2 : Argon2) {statements : List (World × Statement)} (binds : ∀ s ∈ statements, BindsFourDigits s) :
    Timely (Machine.run (Statement.exec argon2) Db.empty statements) := by
  have start : Stamped FourDigits Db.empty ∧ AttemptsDated Db.empty := ⟨.empty, fun row mem => absurd mem List.not_mem_nil⟩
  obtain ⟨stamped, dated⟩ := Machine.run_keeps_of_forall (fun db => Stamped FourDigits db ∧ AttemptsDated db)
    (fun db s holds binds => statement_timely argon2 s binds holds) binds start
  have lastSeen : Column.lastSeen ≠ .receivedAt := by decide
  have lastSeenAt : Column.lastSeenAt ≠ .receivedAt := by decide
  exact ⟨fun row mem => dated_of_known lastSeen (stamped.issues row mem).2,
    fun row mem => dated_of_known lastSeenAt (stamped.sessions row mem), dated⟩

/-- Byte by byte, texts of instants in the years 0000 to 9999 are in the order of the instants. Where the columns hold such
texts, which they do after every run of statements that bind no others, the queries order and select by time. -/
theorem texts_order_by_time :
    (∀ t u : DateTime, FourDigitYear t.day → FourDigitYear u.day →
      (utf8Bytes t.toRfc3339 < utf8Bytes u.toRfc3339 ↔ t.nanos < u.nanos) ∧
        (utf8Bytes t.toRfc3339 = utf8Bytes u.toRfc3339 ↔ t.nanos = u.nanos)) ∧
    (∀ db, Timely db → OrdersByTime db) ∧
    ∀ (argon2 : Argon2) (statements : List (World × Statement)), (∀ s ∈ statements, BindsFourDigits s) →
      Timely (Machine.run (Statement.exec argon2) Db.empty statements) := by
  refine ⟨fun t u ht hu => ⟨?_, ?_⟩, fun db => Timely.orders, fun argon2 statements => run_timely argon2⟩
  · rw [utf8Bytes_lt_iff, ← toRfc3339_lt_iff ht hu, textLt, decide_eq_true_iff]
  · rw [utf8Bytes_inj, text_eq_iff ⟨t, ht, rfl⟩ ⟨u, hu, rfl⟩, nanosOf_toRfc3339 ht, nanosOf_toRfc3339 hu]

theorem noonDigest_binds : ∀ s ∈ noonDigest, BindsFourDigits s := by
  intro s mem
  obtain rfl := List.mem_singleton.mp mem
  refine ⟨by decide, fun column t put => ?_⟩
  cases put with
  | batchFirst mem =>
      obtain rfl := List.mem_singleton.mp mem
      decide
  | batchLast mem =>
      obtain rfl := List.mem_singleton.mp mem
      decide

theorem texts_order_by_time_noon :
    utf8Bytes epoch.instant.toRfc3339 < utf8Bytes noon.instant.toRfc3339 ∧
      OrdersByTime (Machine.run (Statement.exec plainArgon2) Db.empty noonDigest) :=
  ⟨(texts_order_by_time.1 epoch.instant noon.instant (by decide) (by decide)).1.mpr (by decide),
    texts_order_by_time.2.1 _ (texts_order_by_time.2.2 plainArgon2 noonDigest noonDigest_binds)⟩

end Errex.Proof.Timestamps
