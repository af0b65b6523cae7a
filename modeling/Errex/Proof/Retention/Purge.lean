import Errex.Model.Store.Calls

/-!
# What the purge by age deletes

The comparison of texts decides by the UTC day alone: on the day of the cutoff every event is older.
So the purge is exact just when no event was received on that day at or after the cutoff, and, for
cutoffs after the year 9999, when there is no event at all (`purgeEventsOlderThan_exact_iff`).
-/

namespace Errex.Proof.Retention
open Foundation Calendar Model Store

def ReceivedBefore (cutoff : DateTime) (event : EventRow) : Prop :=
  event.receivedAt.seconds * nanosPerSecond < cutoff.nanos

instance (cutoff : DateTime) (event : EventRow) : Decidable (ReceivedBefore cutoff event) :=
  inferInstanceAs (Decidable (_ < _))

/-- The condition on which the purge treats an event as its time asks. -/
def DayAgrees (cutoff : DateTime) (event : EventRow) : Prop :=
  (FourDigitYear cutoff.day → event.receivedAt.day = cutoff.day → ReceivedBefore cutoff event) ∧
    yearOf cutoff.day < 10000

theorem receivedBefore_of_day_lt {cutoff : DateTime} {event : EventRow}
    (lt : event.receivedAt.day < cutoff.day) : ReceivedBefore cutoff event := by
  simp only [SqliteTime.day, DateTime.day, DateTime.second, secondsPerDay, nanosPerSecond] at lt
  simp only [ReceivedBefore, nanosPerSecond]
  omega

theorem not_receivedBefore_of_day_gt {cutoff : DateTime} {event : EventRow}
    (gt : cutoff.day < event.receivedAt.day) : ¬ ReceivedBefore cutoff event := by
  simp only [SqliteTime.day, DateTime.day, DateTime.second, secondsPerDay, nanosPerSecond] at gt
  simp only [ReceivedBefore, nanosPerSecond]
  omega

theorem textLt_iff_receivedBefore (cutoff : DateTime) (event : EventRow) :
    (textLt event.receivedAt.currentTimestamp cutoff.toRfc3339 = true ↔ ReceivedBefore cutoff event) ↔
      DayAgrees cutoff event := by
  rw [currentTimestamp_lt_toRfc3339]
  have received : FourDigitYear event.receivedAt.day := event.receivedAt.fourDigitYear
  by_cases four : FourDigitYear cutoff.day
  · have inside := four.2
    rcases lt_trichotomy event.receivedAt.day cutoff.day with earlier | same | later
    · have before := receivedBefore_of_day_lt earlier
      simp [DayAgrees, four, earlier.le, before, inside]
    · simp [DayAgrees, four, same, inside]
    · have after := not_receivedBefore_of_day_gt later
      simp [DayAgrees, four, later.not_ge, later.ne', after, inside]
  · have outside : yearOf cutoff.day < 0 ∨ 10000 ≤ yearOf cutoff.day := by
      simp only [FourDigitYear] at four
      omega
    rcases outside with early | late
    · have later : cutoff.day < event.receivedAt.day := by
        by_contra le
        have := yearOf_mono (Int.not_lt.mp le)
        have := received.1
        omega
      have after := not_receivedBefore_of_day_gt later
      have inside : yearOf cutoff.day < 10000 := by omega
      simp [DayAgrees, four, after, inside]
    · have earlier : event.receivedAt.day < cutoff.day := by
        by_contra le
        have := yearOf_mono (Int.not_lt.mp le)
        have := received.2
        omega
      have before := receivedBefore_of_day_lt earlier
      simp [DayAgrees, four, before, late.not_gt]

def afterPurge (cutoff : DateTime) (db : Db) : Db :=
  match purgeEventsOlderThan cutoff db with
  | .ok (_, db') => db'
  | .error _ => db

/-- The purge keeps the events received at or after the cutoff, and no others. -/
def PurgeExact (cutoff : DateTime) (db : Db) : Prop :=
  (afterPurge cutoff db).events.rows = db.events.rows.filter fun event => !ReceivedBefore cutoff event

/-- The purge is exact just when no event was received on the day of the cutoff at or after it, and
none at all when the cutoff lies after the year 9999. -/
theorem purgeEventsOlderThan_exact_iff (cutoff : DateTime) (db : Db) :
    PurgeExact cutoff db ↔
      (∀ event ∈ db.events.rows, FourDigitYear cutoff.day → event.receivedAt.day = cutoff.day →
        ReceivedBefore cutoff event) ∧
      (10000 ≤ yearOf cutoff.day → db.events.rows = []) := by
  have deleted : (afterPurge cutoff db).events.rows = db.events.rows.filter fun event =>
      !textLt event.receivedAt.currentTimestamp cutoff.toRfc3339 := rfl
  have agrees : PurgeExact cutoff db ↔ ∀ event ∈ db.events.rows, DayAgrees cutoff event := by
    simp only [PurgeExact, deleted, ← textLt_iff_receivedBefore]
    constructor
    · intro same event mem
      have kept := congrArg (event ∈ ·) same
      simp only [List.mem_filter, mem, true_and, Bool.not_eq_true', eq_iff_iff] at kept
      rw [← Bool.not_eq_false, not_iff_comm, kept, decide_eq_false_iff_not]
    · intro each
      refine List.filter_congr fun event mem => ?_
      rw [Bool.not_inj_iff, Bool.eq_iff_iff, decide_eq_true_iff]
      exact each event mem
  rw [agrees]
  constructor
  · intro each
    refine ⟨fun event mem => (each event mem).1, fun late => ?_⟩
    by_contra some_event
    obtain ⟨event, mem⟩ := List.exists_mem_of_ne_nil _ some_event
    have := (each event mem).2
    omega
  · rintro ⟨onDay, late⟩ event mem
    refine ⟨onDay event mem, ?_⟩
    by_contra outside
    simp [late (Int.not_lt.mp outside)] at mem

def midnight : DateTime := ⟨1777334400 * 1000000000, by decide, by decide⟩

def noonInput : BatchUpsertInput where
  project := "web"
  fp := "f1"
  title := "boom"
  culprit := none
  level := none
  now := noon.instant
  eventId := "00000000-0000-0000-0000-000000000001"
  payload := "\x7b\x7d"

/-- Half a day after the cutoff, the event is deleted: its text has a blank where the cutoff has a
`T`. -/
theorem purgeEventsOlderThan_not_exact :
    ¬ ∀ (argon2 : Argon2) (calls : List (World × Call)) (cutoff : DateTime),
      (∀ call ∈ calls, ∃ batch, call.2 = .upsertBatchWithEvents batch) →
      PurgeExact cutoff (performAll (exec argon2) calls Db.empty) := by
  intro exact
  have kept := exact plainArgon2 [(noonWorld 0, .upsertBatchWithEvents [noonInput])] midnight (by simp)
  exact absurd (congrArg List.length kept) (by decide)

end Errex.Proof.Retention
