import Errex.Foundation.Ranking
import Errex.Model.Retention
import Errex.Model.Store.Reads
import Errex.Proof.Frame
import Errex.Proof.Retention.Purge
import Mathlib.Data.Prod.Lex
import Mathlib.Data.String.Basic

/-!
# The purges in any order

Each purge of a tick keeps with a row those that rank higher, or depends on its issue alone. So no
purge changes a rank that another one goes by, and what is left does not depend on their order
(`performAll_purges`).
-/

namespace Errex.Proof.Retention
open Foundation Ranking Process Model Store Model.Retention

def sameProject (a b : IssueRow) : Bool := a.project == b.project

def sameIssue (a b : EventRow) : Bool := a.issueId == b.issueId

def newerIssue : IssueRow → IssueRow → Bool := descending (·.lastSeen) (·.id)

def newerEvent : EventRow → EventRow → Bool := descending (·.receivedAt.currentTimestamp) (·.id)

def cap (max : Int64) : Option Int := if max ≤ 0 then none else some max.toInt

def keepsIssue (max : Int64) (issues : List IssueRow) : IssueRow → Bool :=
  within sameProject newerIssue (cap max) issues

def keepsEvent (max : Int64) (events : List EventRow) : EventRow → Bool :=
  within sameIssue newerEvent (cap max) events

def old (cutoff : Option DateTime) (event : EventRow) : Bool :=
  cutoff.any fun cutoff => textLt event.receivedAt.currentTimestamp cutoff.toRfc3339

def orphaned (max : Int64) (issues : List IssueRow) (event : EventRow) : Bool :=
  issues.any fun row => !keepsIssue max issues row && row.id == event.issueId

def purged (settings : RetentionSettings) (cutoff : Option DateTime) (db : Db) : Db :=
  let issues := db.issues.rows
  { db with
    issues := db.issues.delete fun row => !keepsIssue settings.issuesPerProjectMax issues row
    events := db.events.delete fun event => old cutoff event ||
      !keepsEvent settings.eventsPerIssueMax db.events.rows event || orphaned settings.issuesPerProjectMax issues event }

def purges (settings : RetentionSettings) (cutoff : Option DateTime) : List Call :=
  (cutoff.map Call.purgeEventsOlderThan).toList ++
    (if 0 < settings.eventsPerIssueMax then [.purgeExcessEventsPerIssue settings.eventsPerIssueMax] else []) ++
    if 0 < settings.issuesPerProjectMax then [.purgeExcessIssuesPerProject settings.issuesPerProjectMax] else []

variable {argon2 : Argon2} {settings : RetentionSettings} {cutoff : Option DateTime} {db : Db}

def deleteEvents (doomed : EventRow → Bool) (db : Db) : Db := { db with events := db.events.delete doomed }

def effect (db : Db) : Call → Db
  | .purgeEventsOlderThan c => deleteEvents (old (some c)) db
  | .purgeExcessEventsPerIssue max => deleteEvents (fun event => !keepsEvent max db.events.rows event) db
  | .purgeExcessIssuesPerProject max => (deleteIssues (fun row => !keepsIssue max db.issues.rows row) db).2
  | _ => db

theorem rowNumber_excess {ρ : Type} {max : Int64} (on : 0 < max) (partner before : ρ → ρ → Bool) (rows : List ρ) :
    (fun row => decide (max.toInt < rowNumber partner before rows row)) =
      fun row => !within partner before (cap max) rows row := by
  funext row
  rw [cap, if_neg (Int64.not_le.mpr on), within, Option.all_some, ← decide_not]
  apply decide_eq_decide.mpr
  rw [rowNumber, ahead]
  omega

theorem purge_cases {c : Call} (mem : c ∈ purges settings cutoff) : (∃ t, c = .purgeEventsOlderThan t) ∨
    (0 < settings.eventsPerIssueMax ∧ c = .purgeExcessEventsPerIssue settings.eventsPerIssueMax) ∨
    0 < settings.issuesPerProjectMax ∧ c = .purgeExcessIssuesPerProject settings.issuesPerProjectMax := by
  simp only [purges, List.mem_append, Option.mem_toList, Option.map_eq_some_iff] at mem
  rcases mem with (⟨t, -, rfl⟩ | mem) | mem
  · exact .inl ⟨t, rfl⟩
  · split_ifs at mem with on
    · exact .inr (.inl ⟨on, List.mem_singleton.mp mem⟩)
    · cases mem
  · split_ifs at mem with on
    · exact .inr (.inr ⟨on, List.mem_singleton.mp mem⟩)
    · cases mem

theorem old_some (t : DateTime) : old (some t) = fun event => textLt event.receivedAt.currentTimestamp t.toRfc3339 := by
  funext event
  rw [old, Option.any_some]

theorem exec_purge {w : World} (calm : w.fault = none) {c : Call} (mem : c ∈ purges settings cutoff) (db : Db) :
    (exec argon2 w c db).2 = effect db c := by
  rcases purge_cases mem with ⟨t, rfl⟩ | ⟨on, rfl⟩ | ⟨on, rfl⟩
  · rw [exec, transact_calm calm, effect, old_some]
    rfl
  · have off : ¬ settings.eventsPerIssueMax ≤ 0 := Int64.not_le.mpr on
    rw [exec, transact_calm calm, purgeExcessEventsPerIssue, if_neg off, Transaction.execute_run]
    simp only [rowNumber_excess on]
    rfl
  · have off : ¬ settings.issuesPerProjectMax ≤ 0 := Int64.not_le.mpr on
    rw [exec, transact_calm calm, purgeExcessIssuesPerProject, if_neg off, Transaction.execute_run]
    simp only [rowNumber_excess on]
    rfl

def newest {ρ : Type} (text : ρ → String) (id : ρ → Int) (row : ρ) : (String ×ₗ Int)ᵒᵈ :=
  .toDual (toLex (text row, id row))

theorem descending_eq {ρ : Type} (text : ρ → String) (id : ρ → Int) :
    descending text id = fun a b => decide (newest text id a < newest text id b) := by
  funext a b
  rw [Bool.eq_iff_iff]
  simp only [descending, textLt, newest, Bool.or_eq_true, Bool.and_eq_true, decide_eq_true_eq, beq_iff_eq,
    OrderDual.toDual_lt_toDual, Prod.Lex.toLex_lt_toLex, ← String.lt_iff_toList_lt]
  rw [eq_comm (a := text a)]

theorem descending_iff {ρ : Type} {text : ρ → String} {id : ρ → Int} {a b : ρ} :
    descending text id a b = true ↔ newest text id a < newest text id b := by
  rw [descending_eq, decide_eq_true_iff]

theorem closed_keepsEvent (max : Int64) (events : List EventRow) :
    Closed sameIssue newerEvent (keepsEvent max events) := by
  apply closed_within
  · intro a b c ab bc
    simp only [sameIssue, beq_iff_eq] at *
    exact ab.trans bc
  · intro a b c ab bc
    simp only [newerEvent, descending_iff] at *
    exact ab.trans bc

theorem closed_old (cutoff : Option DateTime) : Closed sameIssue newerEvent fun event => !old cutoff event := by
  intro event other kept _ newer
  cases cutoff with
  | none => rfl
  | some c =>
      simp only [old, Option.any_some, textLt, Bool.not_eq_true', decide_eq_false_iff_not, ← String.lt_iff_toList_lt,
        not_lt] at kept ⊢
      rw [newerEvent, descending_iff, newest, newest, OrderDual.toDual_lt_toDual, Prod.Lex.toLex_lt_toLex] at newer
      rcases newer with later | same
      · exact kept.trans later.le
      · exact kept.trans_eq same.1

theorem closed_orphaned (max : Int64) (issues : List IssueRow) :
    Closed sameIssue newerEvent fun event => !orphaned max issues event := by
  intro event other kept same _
  have same : other.issueId = event.issueId := by simpa [sameIssue] using same
  simpa only [orphaned, same] using kept

theorem filter_keepsEvent {keep : EventRow → Bool} (closed : Closed sameIssue newerEvent keep) (max : Int64)
    (events : List EventRow) : (events.filter keep).filter (keepsEvent max (events.filter keep)) =
      (events.filter (keepsEvent max events)).filter keep :=
  within_filter closed (cap max) events

theorem tables_ext (db : Db) {issues issues' : Table IssueRow (String × String) IssueRow.key}
    {events events' : Table EventRow String EventRow.eventId} (same : issues.rows = issues'.rows)
    (same' : events.rows = events'.rows) : { db with issues, events } = { db with issues := issues', events := events' } := by
  obtain ⟨rows, _⟩ := issues
  obtain ⟨rows', _⟩ := events
  cases same
  cases same'
  rfl

def Commute (c c' : Call) : Prop := ∀ db, effect (effect db c) c' = effect (effect db c') c

theorem Commute.symm {c c' : Call} (commute : Commute c c') : Commute c' c := fun db => (commute db).symm

theorem deleteEvents_comm (f g : List EventRow → EventRow → Bool) (db : Db)
    (same : ((db.events.rows.filter fun event => !f db.events.rows event).filter fun event =>
        !g (db.events.rows.filter fun event => !f db.events.rows event) event) =
      (db.events.rows.filter fun event => !g db.events.rows event).filter fun event =>
        !f (db.events.rows.filter fun event => !g db.events.rows event) event) :
    deleteEvents (g (deleteEvents (f db.events.rows) db).events.rows) (deleteEvents (f db.events.rows) db) =
      deleteEvents (f (deleteEvents (g db.events.rows) db).events.rows) (deleteEvents (g db.events.rows) db) :=
  tables_ext db rfl same

theorem commute_aged (t t' : DateTime) : Commute (.purgeEventsOlderThan t) (.purgeEventsOlderThan t') :=
  fun db => deleteEvents_comm (fun _ => old (some t)) (fun _ => old (some t')) db (List.filter_comm ..)

theorem commute_aged_events (t : DateTime) (max : Int64) :
    Commute (.purgeEventsOlderThan t) (.purgeExcessEventsPerIssue max) := by
  intro db
  apply deleteEvents_comm (fun _ => old (some t)) (fun rows event => !keepsEvent max rows event) db
  simpa only [Bool.not_not] using filter_keepsEvent (closed_old (some t)) max db.events.rows

theorem commute_aged_issues (t : DateTime) (max : Int64) :
    Commute (.purgeEventsOlderThan t) (.purgeExcessIssuesPerProject max) := by
  intro db
  exact tables_ext db rfl (List.filter_comm ..)

theorem commute_events_issues (max max' : Int64) :
    Commute (.purgeExcessEventsPerIssue max) (.purgeExcessIssuesPerProject max') := by
  intro db
  apply tables_ext db rfl
  have := filter_keepsEvent (closed_orphaned max' db.issues.rows) max db.events.rows
  simpa [effect, deleteEvents, deleteIssues, Table.delete, orphaned] using this.symm

theorem commute_purges {c c' : Call} (mem : c ∈ purges settings cutoff) (mem' : c' ∈ purges settings cutoff) :
    Commute c c' := by
  rcases purge_cases mem with ⟨t, rfl⟩ | ⟨-, rfl⟩ | ⟨-, rfl⟩ <;>
    rcases purge_cases mem' with ⟨t', rfl⟩ | ⟨-, rfl⟩ | ⟨-, rfl⟩
  · exact commute_aged t t'
  · exact commute_aged_events t _
  · exact commute_aged_issues t _
  · exact (commute_aged_events t' _).symm
  · exact fun _ => rfl
  · exact commute_events_issues _ _
  · exact (commute_aged_issues t' _).symm
  · exact (commute_events_issues _ _).symm
  · exact fun _ => rfl

theorem performAll_effect {calls : List (World × Call)} (calm : ∀ call ∈ calls, call.1.fault = none)
    (mem : ∀ call ∈ calls, call.2 ∈ purges settings cutoff) (db : Db) :
    performAll (exec argon2) calls db = (calls.map (·.2)).foldl effect db := by
  rw [performAll, List.foldl_map]
  apply List.foldl_ext
  intro db call inside
  exact exec_purge (calm call inside) (mem call inside) db

theorem kept_off {max : Int64} (off : ¬ 0 < max) (issues : List IssueRow) (events : List EventRow) :
    keepsIssue max issues = (fun _ => true) ∧ keepsEvent max events = fun _ => true := by
  have none_ : cap max = none := if_pos (Int64.not_lt.mp off)
  constructor
  · funext row
    rw [keepsIssue, none_]
    rfl
  · funext event
    rw [keepsEvent, none_]
    rfl

theorem foldl_purges (settings : RetentionSettings) (cutoff : Option DateTime) (db : Db) :
    (purges settings cutoff).foldl effect db = purged settings cutoff db := by
  have aged : (cutoff.map Call.purgeEventsOlderThan).toList.foldl effect db = deleteEvents (old cutoff) db := by
    cases cutoff with
    | none =>
        apply tables_ext db rfl
        simp [Table.delete, old]
    | some t => rfl
  have trimmed : ∀ db : Db, (if 0 < settings.eventsPerIssueMax then
      [Call.purgeExcessEventsPerIssue settings.eventsPerIssueMax] else []).foldl effect db =
        deleteEvents (fun event => !keepsEvent settings.eventsPerIssueMax db.events.rows event) db := by
    intro db
    split_ifs with on
    · rfl
    · apply tables_ext db rfl
      simp [Table.delete, (kept_off on db.issues.rows db.events.rows).2]
  have dropped : ∀ db : Db, (if 0 < settings.issuesPerProjectMax then
      [Call.purgeExcessIssuesPerProject settings.issuesPerProjectMax] else []).foldl effect db =
        (deleteIssues (fun row => !keepsIssue settings.issuesPerProjectMax db.issues.rows row) db).2 := by
    intro db
    split_ifs with on
    · rfl
    · have none_ : ∀ row : IssueRow, (!keepsIssue settings.issuesPerProjectMax db.issues.rows row) = false := by
        intro row
        rw [(kept_off on db.issues.rows db.events.rows).1]
        rfl
      apply tables_ext db
      · simp [Table.delete, none_]
      · have owners : ∀ event : EventRow, (db.issues.rows.any fun row => false && row.id == event.issueId) = false := by
          simp
        simp only [Table.delete, none_, owners, Bool.not_false, List.filter_true]
  rw [purges, List.foldl_append, List.foldl_append, aged, trimmed, dropped]
  apply tables_ext db rfl
  have younger := filter_keepsEvent (closed_old cutoff) settings.eventsPerIssueMax db.events.rows
  have trimmed_rows : (deleteEvents (fun event => !keepsEvent settings.eventsPerIssueMax (deleteEvents (old cutoff) db).events.rows
      event) (deleteEvents (old cutoff) db)).events.rows = (db.events.rows.filter
        (keepsEvent settings.eventsPerIssueMax db.events.rows)).filter fun event => !old cutoff event := by
    simpa only [deleteEvents, Table.delete, Bool.not_not] using younger
  refine (congrArg (List.filter _) trimmed_rows).trans ?_
  rw [List.filter_filter, List.filter_filter]
  apply List.filter_congr
  intro event _
  show ((!orphaned settings.issuesPerProjectMax db.issues.rows event && !old cutoff event) &&
    keepsEvent settings.eventsPerIssueMax db.events.rows event) = _
  rw [Bool.not_or, Bool.not_or, Bool.not_not, Bool.and_assoc, Bool.and_comm]

structure PrimaryKeys (db : Db) : Prop where
  issues : (db.issues.rows.map (·.id)).Nodup
  events : (db.events.rows.map (·.id)).Nodup

theorem orphaned_eq_false (keys : PrimaryKeys db) {max : Int64} {row : IssueRow} (mem : row ∈ db.issues.rows)
    (kept : keepsIssue max db.issues.rows row = true) {event : EventRow} (owned : event.issueId = row.id) :
    orphaned max db.issues.rows event = false := by
  rw [orphaned, List.any_eq_false]
  intro other mem' dropped
  rw [Bool.and_eq_true, beq_iff_eq] at dropped
  have same : other = row := List.inj_on_of_nodup_map keys.issues mem' mem (dropped.2.trans owned)
  rw [same, kept] at dropped
  cases dropped.1

theorem keepsEvent_newest {max : Int64} {events : List EventRow} {event : EventRow}
    (newest_ : ∀ other ∈ events, sameIssue other event = true → newerEvent other event = false) :
    keepsEvent max events event = true := by
  have none_ : ahead sameIssue newerEvent events event = 0 := by
    rw [ahead, List.countP_eq_zero]
    intro other mem both
    rw [Bool.and_eq_true] at both
    rw [newest_ other mem both.1] at both
    cases both.2
  rw [keepsEvent, within, cap]
  split_ifs with off
  · rfl
  · have positive : (0 : Int) < max.toInt := Int64.lt_iff_toInt_lt.mp (Int64.not_le.mp off)
    rw [Option.all_some, none_]
    exact decide_eq_true positive

def byTime : EventRow → (String ×ₗ Int)ᵒᵈ := newest (·.receivedAt.currentTimestamp) (·.id)

theorem latestRow_eq (issueId : Int) (db : Db) : latestRow issueId db =
    first (fun a b => decide (byTime a < byTime b)) (db.events.rows.filter (·.issueId == issueId)) := by
  rw [latestRow, descending_eq]
  rfl

theorem latestRow_purged (keys : PrimaryKeys db) {row : IssueRow} (mem : row ∈ (purged settings cutoff db).issues.rows) :
    latestRow row.id (purged settings cutoff db) = (latestRow row.id db).filter fun event => !old cutoff event := by
  set group := db.events.rows.filter (·.issueId == row.id) with group_def
  set keep : EventRow → Bool := fun event => !old cutoff event && keepsEvent settings.eventsPerIssueMax db.events.rows event
    with keep_def
  obtain ⟨inside, kept⟩ := List.mem_filter.mp mem
  have after : (purged settings cutoff db).events.rows.filter (·.issueId == row.id) = group.filter keep := by
    have rows : (purged settings cutoff db).events.rows = db.events.rows.filter fun event => !(old cutoff event ||
        !keepsEvent settings.eventsPerIssueMax db.events.rows event ||
        orphaned settings.issuesPerProjectMax db.issues.rows event) := rfl
    rw [rows, List.filter_comm]
    apply List.filter_congr
    intro event owned
    have owner : event.issueId = row.id := by simpa [group_def] using (List.mem_filter.mp owned).2
    rw [orphaned_eq_false keys inside (by simpa using kept) owner, Bool.or_false, Bool.not_or, Bool.not_not]
  have owner : ∀ event ∈ group, event ∈ db.events.rows ∧ event.issueId = row.id := by
    intro event owned
    simpa [group_def] using owned
  have distinct : ∀ a ∈ group, ∀ b ∈ group, byTime a = byTime b → a = b := by
    intro a mem b mem' same
    have ids : a.id = b.id := (Prod.mk.inj (toLex.injective (OrderDual.toDual.injective same))).2
    exact List.inj_on_of_nodup_map keys.events (owner a mem).1 (owner b mem').1 ids
  have closed : ∀ a ∈ group, ∀ b ∈ group, keep a = true → byTime b < byTime a → keep b = true := by
    intro a mem b mem' kept newer
    rw [keep_def, Bool.and_eq_true] at kept ⊢
    have same : sameIssue b a = true := by simp [sameIssue, (owner a mem).2, (owner b mem').2]
    have newer : newerEvent b a = true := descending_iff.mpr newer
    exact ⟨closed_old cutoff a b kept.1 same newer, closed_keepsEvent _ _ a b kept.2 same newer⟩
  rw [latestRow_eq, latestRow_eq, after, first_filter distinct closed]
  rcases first_spec byTime group with ⟨none_, -⟩ | ⟨event, owned, found, least⟩
  · rw [none_]
    rfl
  · have newest_ : keepsEvent settings.eventsPerIssueMax db.events.rows event = true := by
      apply keepsEvent_newest
      intro other mem same
      have owned' : other ∈ group := by
        rw [group_def, List.mem_filter]
        exact ⟨mem, by simpa [sameIssue, (owner event owned).2] using same⟩
      rw [← Bool.not_eq_true, newerEvent, descending_iff]
      exact not_lt.mpr (least other owned')
    simp only [← group_def, found, Option.filter_some, keep_def, newest_, Bool.and_true]

/-- The purges of a tick leave the same in every order, and of each issue that stays they leave the latest
event or, when that is too old, none. -/
theorem performAll_purges (argon2 : Argon2) (settings : RetentionSettings) (cutoff : Option DateTime) (db : Db)
    (keys : PrimaryKeys db) (calls : List (World × Call)) (calm : ∀ call ∈ calls, call.1.fault = none)
    (order : (calls.map (·.2)).Perm (purges settings cutoff)) :
    let after := performAll (exec argon2) calls db
    after = purged settings cutoff db ∧ ∀ row ∈ after.issues.rows, ∀ fromStr now,
      (latestEvent fromStr now row.id after).map (·.1) =
        if (latestRow row.id db).any (old cutoff) then .ok none
        else (latestEvent fromStr now row.id db).map (·.1) := by
  intro after
  have done : after = purged settings cutoff db := by
    have mem : ∀ call ∈ calls, call.2 ∈ purges settings cutoff := by
      intro call inside
      exact order.subset (List.mem_map_of_mem inside)
    rw [← foldl_purges, ← order.foldl_eq' (fun c mem c' mem' db =>
      commute_purges (order.subset mem) (order.subset mem') db) db]
    exact performAll_effect calm mem db
  refine ⟨done, ?_⟩
  rw [done]
  intro row mem fromStr now
  have latest := latestRow_purged keys mem
  cases before : latestRow row.id db with
  | none =>
      rw [before] at latest
      simp only [latestEvent, before, show latestRow row.id (purged settings cutoff db) = none from latest]
      rfl
  | some event =>
      rw [before, Option.filter_some] at latest
      cases aged : old cutoff event with
      | true =>
          rw [aged] at latest
          simp only [latestEvent, show latestRow row.id (purged settings cutoff db) = none from latest, Option.any_some, aged]
          rfl
      | false =>
          rw [aged] at latest
          simp only [latestEvent, show latestRow row.id (purged settings cutoff db) = some event from latest, before,
            Option.any_some, aged]
          cases StoredEvent.ofRow fromStr now event <;> rfl

def twoIssues : Db := performAll (exec plainArgon2) [(noonWorld 0, .upsertBatchWithEvents [noonInput,
  { noonInput with fp := "f2", eventId := "00000000-0000-0000-0000-000000000002" }])] Db.empty

theorem performAll_purges_twoIssues :
    (performAll (exec plainArgon2) [(noonWorld 0, .purgeExcessIssuesPerProject 1), (noonWorld 0,
      .purgeExcessEventsPerIssue 1)] twoIssues).events.rows.map (·.issueId) = [2] := by
  have keys : PrimaryKeys twoIssues := ⟨by decide, by decide⟩
  rw [(performAll_purges plainArgon2 ⟨1, 1, 0⟩ none twoIssues keys [(noonWorld 0, .purgeExcessIssuesPerProject 1),
    (noonWorld 0, .purgeExcessEventsPerIssue 1)] (by simp [noonWorld]) (List.Perm.swap _ _ [])).1]
  decide

end Errex.Proof.Retention
