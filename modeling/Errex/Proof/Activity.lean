import Errex.Model.Store.Reads
import Errex.Proof.Issues.Integrity
import Errex.Proof.Retention.Purge
import Errex.Proof.Rfc3339

/-!
# The activity of the last day

`activity_stats` reads times that SQLite wrote as if they were RFC 3339. Compared as texts they decide by
the day alone; in the buckets none is readable, and as the time of the last event each is replaced by
the clock. So the statistics are right of a project without events, and of next to nothing else
(`activityStats_exact_iff`).
-/

namespace Errex.Proof.Activity
open Foundation Calendar Model Store Issues Rfc3339

def dayNanos : Int := secondsPerDay * nanosPerSecond

def instantOf (event : EventRow) : Int := event.receivedAt.seconds * nanosPerSecond

def age (now : DateTime) (event : EventRow) : Int := now.nanos - instantOf event

def projectEvents (project : String) (db : Db) : List EventRow :=
  db.events.rows.filter fun event => db.issues.rows.any fun row => event.issueId == row.id && row.project == project

def instants (events : List EventRow) : Set Int := { t | ∃ event ∈ events, instantOf event = t }

/-- The event counts; one that is a day old may count or not. -/
def inWindow (closed : Bool) (now : DateTime) (event : EventRow) : Bool :=
  decide (0 ≤ age now event ∧ (age now event < dayNanos ∨ closed = true ∧ age now event = dayNanos))

def bucketOf (now : DateTime) (event : EventRow) : Int := max 0 (23 - age now event / (3600 * nanosPerSecond))

structure Exact (now : DateTime) (events : List EventRow) (stats : ActivityStats) : Prop where
  last_event : ∀ t, stats.lastEventAt.map (·.nanos) = some t ↔ IsGreatest (instants events) t
  window : ∃ closed, let counted := events.filter (inWindow closed now)
    stats.events24h = counted.length ∧ stats.uniqueIssues24h = (counted.map (·.issueId)).dedup.length ∧
      stats.hourlyBuckets.length = 24 ∧ stats.hourlyBuckets.sum = stats.events24h ∧
      ∀ i : Nat, i < 24 → stats.hourlyBuckets[i]? = some (counted.countP fun event => bucketOf now event = i)

/-- There is a day before `now`, and the events, if there are any, end when the clock of the daemon reads the
same, at least a day before `now` and not after the year 9999. -/
def Quiet (clock : UtcNow) (now : DateTime) (events : List EventRow) : Prop :=
  ∃ cutoff, (Duration.hours 24).bind now.sub = some cutoff ∧ (events = [] ∨
    IsGreatest (instants events) clock.instant.nanos ∧ (∀ event ∈ events, dayNanos ≤ age now event) ∧
      yearOf cutoff.day < 10000)

theorem joined_once {rows : List IssueRow} (nodup : (rows.map (·.id)).Nodup) (event : EventRow) (project : String) :
    ((rows.filter fun row => event.issueId == row.id && row.project == project).map fun _ => event) =
      if rows.any fun row => event.issueId == row.id && row.project == project then [event] else [] := by
  induction rows with
  | nil => rfl
  | cons row rest ih =>
      rw [List.map_cons, List.nodup_cons] at nodup
      cases owner : event.issueId == row.id && row.project == project with
      | false => simpa [List.filter_cons, owner] using ih nodup.2
      | true =>
          have same : event.issueId = row.id := beq_iff_eq.mp (Bool.and_eq_true_iff.mp owner).1
          have others : (rest.filter fun row => event.issueId == row.id && row.project == project) = [] := by
            rw [List.filter_eq_nil_iff]
            intro other mem both
            have id : event.issueId = other.id := beq_iff_eq.mp (Bool.and_eq_true_iff.mp both).1
            exact nodup.1 (List.mem_map.mpr ⟨other, mem, id.symm.trans same⟩)
          simp [owner, others]

theorem joinedEvents_eq {db : Db} (nodup : (db.issues.rows.map (·.id)).Nodup) (project : String) :
    joinedEvents project db = projectEvents project db := by
  rw [joinedEvents, projectEvents]
  induction db.events.rows with
  | nil => rfl
  | cons event rest ih =>
      rw [List.flatMap_cons, joined_once nodup, ih, List.filter_cons]
      split_ifs <;> rfl

variable {clock : UtcNow} {project : String} {now cutoff : DateTime} {db : Db}

theorem currentTimestamp_ne_empty (s : SqliteTime) : s.currentTimestamp ≠ "" := by
  intro empty
  have := congrArg (fun text => text.toList.length) empty
  simp [SqliteTime.currentTimestamp] at this

theorem foldl_countInBucket (now : DateTime) (buckets : List Nat) (events : List EventRow) :
    (events.map (·.receivedAt.currentTimestamp)).foldl (countInBucket now) buckets = buckets := by
  induction events with
  | nil => rfl
  | cons event rest ih =>
      rw [List.map_cons, List.foldl_cons, countInBucket, parseFromRfc3339_currentTimestamp]
      exact ih

theorem maxText_mem (texts : List String) (some_ : texts ≠ []) : ∃ text ∈ texts, maxText texts = some text := by
  have chosen : ∀ (rest : List String) (text : String),
      rest.foldl (fun greatest text => if textLt greatest text then text else greatest) text ∈ text :: rest := by
    intro rest
    induction rest with
    | nil => simp
    | cons next rest ih =>
        intro text
        rw [List.foldl_cons]
        split_ifs
        · exact List.mem_cons_of_mem _ (ih next)
        · rcases List.mem_cons.mp (ih text) with same | later
          · rw [same]
            exact List.mem_cons_self ..
          · exact List.mem_cons_of_mem _ (List.mem_cons_of_mem _ later)
  cases texts with
  | nil => exact absurd rfl some_
  | cons text rest => exact ⟨_, chosen rest text, rfl⟩

theorem lastEventAt_eq (clock : UtcNow) (project : String) (now cutoff : DateTime) (db : Db) :
    (activitySince clock project now cutoff db).lastEventAt =
      if joinedEvents project db = [] then none else some clock.instant.toReading := by
  rw [activitySince]
  split_ifs with none_
  · rw [none_]
    rfl
  · obtain ⟨text, mem, greatest⟩ := maxText_mem
      ((joinedEvents project db).map (·.receivedAt.currentTimestamp)) (by simpa using none_)
    obtain ⟨event, -, rfl⟩ := List.mem_map.mp mem
    have kept : (some event.receivedAt.currentTimestamp).filter (· ≠ "") = some event.receivedAt.currentTimestamp := by
      simp [currentTimestamp_ne_empty]
    simp only [greatest, Option.getD_some]
    rw [kept, Option.map_some, parseOrNow, parseFromRfc3339_currentTimestamp]
    rfl

def counted (cutoff : DateTime) (event : EventRow) : Bool :=
  !decide (FourDigitYear cutoff.day ∧ event.receivedAt.day ≤ cutoff.day)

theorem activitySince_eq (clock : UtcNow) (project : String) (now cutoff : DateTime) (db : Db) :
    let events := joinedEvents project db
    activitySince clock project now cutoff db =
      { events24h := (events.filter (counted cutoff)).length
        uniqueIssues24h := ((events.filter (counted cutoff)).map (·.issueId)).dedup.length
        lastEventAt := if events = [] then none else some clock.instant.toReading
        hourlyBuckets := List.replicate 24 0 } := by
  intro events
  have recent : (fun event : EventRow => !textLt event.receivedAt.currentTimestamp cutoff.toRfc3339) = counted cutoff := by
    funext event
    rw [counted, Bool.eq_iff_iff, Bool.not_eq_true', Bool.not_eq_true', ← Bool.not_eq_true, currentTimestamp_lt_toRfc3339,
      decide_eq_false_iff_not]
  have last := lastEventAt_eq clock project now cutoff db
  simp only [activitySince, recent, foldl_countInBucket] at last ⊢
  rw [last]

theorem sub_day_eq (sub : (Duration.hours 24).bind now.sub = some cutoff) : cutoff.nanos = now.nanos - dayNanos := by
  have day : Duration.hours 24 = some ⟨dayNanos⟩ := by decide
  rw [day, Option.bind_some, DateTime.sub] at sub
  split_ifs at sub
  cases sub
  rfl

theorem day_le_of_old (sub : (Duration.hours 24).bind now.sub = some cutoff) {event : EventRow}
    (old : dayNanos ≤ age now event) : event.receivedAt.day ≤ cutoff.day := by
  have := sub_day_eq sub
  simp only [age, instantOf, nanosPerSecond] at old
  simp only [SqliteTime.day, DateTime.day, DateTime.second, secondsPerDay, nanosPerSecond]
  omega

theorem exact_iff {events : List EventRow} (sub : (Duration.hours 24).bind now.sub = some cutoff)
    (past : ∀ event ∈ events, instantOf event ≤ now.nanos) :
    Exact now events
      { events24h := (events.filter (counted cutoff)).length
        uniqueIssues24h := ((events.filter (counted cutoff)).map (·.issueId)).dedup.length
        lastEventAt := if events = [] then none else some clock.instant.toReading
        hourlyBuckets := List.replicate 24 0 } ↔
      events = [] ∨ IsGreatest (instants events) clock.instant.nanos ∧ (∀ event ∈ events, dayNanos ≤ age now event) ∧
        yearOf cutoff.day < 10000 := by
  constructor
  · intro exact
    by_cases none_ : events = []
    · exact .inl none_
    · right
      obtain ⟨closed, counts, -, -, total, -⟩ := exact.window
      have nothing : events.filter (counted cutoff) = [] := by
        rw [← List.length_eq_zero_iff]
        exact total.symm.trans (by simp)
      have inside : events.filter (inWindow closed now) = [] := by
        rw [← List.length_eq_zero_iff, ← counts]
        exact total.symm.trans (by simp)
      refine ⟨(exact.last_event _).mp (by simp [none_]), ?_, ?_⟩
      · intro event mem
        have outside := List.filter_eq_nil_iff.mp inside event mem
        rw [inWindow, decide_eq_true_iff] at outside
        by_contra young
        exact outside ⟨Int.sub_nonneg.mpr (past event mem), .inl (Int.not_le.mp young)⟩
      · obtain ⟨event, mem⟩ := List.exists_mem_of_ne_nil _ none_
        have dropped := List.filter_eq_nil_iff.mp nothing event mem
        rw [counted, Bool.not_eq_true', decide_eq_false_iff_not, not_not] at dropped
        exact dropped.1.2
  · intro quiet
    have nothing : events.filter (counted cutoff) = [] ∧ events.filter (inWindow false now) = [] := by
      rcases quiet with rfl | ⟨-, old, year⟩
      · exact ⟨rfl, rfl⟩
      · constructor
        · rw [List.filter_eq_nil_iff]
          intro event mem
          have day := day_le_of_old sub (old event mem)
          have four : FourDigitYear cutoff.day := ⟨event.receivedAt.fourDigitYear.1.trans (yearOf_mono day), year⟩
          simp [counted, four, day]
        · rw [List.filter_eq_nil_iff]
          intro event mem
          have := old event mem
          simp only [inWindow, decide_eq_true_eq, Bool.false_eq_true, false_and, or_false]
          omega
    refine ⟨fun t => ?_, false, ?_⟩
    · rcases quiet with rfl | ⟨greatest, -, -⟩
      · simp [IsGreatest, instants]
      · obtain ⟨event, mem, -⟩ := greatest.1
        rw [if_neg (List.ne_nil_of_mem mem), Option.map_some, DateTime.nanos_toReading, Option.some_inj]
        exact ⟨fun same => same ▸ greatest, fun other => greatest.unique other⟩
    · rw [nothing.1, nothing.2]
      refine ⟨rfl, rfl, by simp, by simp, ?_⟩
      intro i inside
      rw [List.getElem?_replicate, if_pos inside]
      rfl

/-- The statistics are right exactly on `Quiet`. -/
theorem activityStats_exact_iff (argon2 : Argon2) (calls : List (World × Call)) (clock : UtcNow) (project : String)
    (now : DateTime) (past : ∀ event ∈ (performAll (exec argon2) calls Db.empty).events.rows, instantOf event ≤ now.nanos) :
    let db := performAll (exec argon2) calls Db.empty
    (∃ stats, activityStats clock project now db = some stats ∧ Exact now (projectEvents project db) stats) ↔
      Quiet clock now (projectEvents project db) := by
  intro db
  have sound : Integrity db :=
    performAll_invariant (exec argon2) Integrity (exec_integrity argon2) calls Integrity.empty
  have joined := joinedEvents_eq sound.ids_nodup project
  have past : ∀ event ∈ projectEvents project db, instantOf event ≤ now.nanos := by
    intro event mem
    exact past event (List.mem_filter.mp mem).1
  rw [activityStats, Quiet]
  cases sub : (Duration.hours 24).bind now.sub with
  | none => simp
  | some cutoff =>
      simp only [Option.map_some, Option.some_inj, exists_eq_left', activitySince_eq, joined, exact_iff sub past]

def oneEvent : Db := performAll (exec plainArgon2) [(noonWorld 0, .upsertBatchWithEvents [Retention.noonInput])] Db.empty

def nextNoon : DateTime := ⟨(1777377600 + 86400) * 1000000000, by decide, by decide⟩

theorem activityStats_exact_iff_oneEvent :
    (∃ stats, activityStats noon "web" nextNoon oneEvent = some stats ∧ Exact nextNoon (projectEvents "web" oneEvent) stats) ∧
      ¬ ∃ stats, activityStats noon "web" noon.instant oneEvent = some stats ∧
        Exact noon.instant (projectEvents "web" oneEvent) stats := by
  have one : (projectEvents "web" oneEvent).map instantOf = [noon.instant.nanos] := by decide +kernel
  obtain ⟨event, only, at_noon⟩ : ∃ event, projectEvents "web" oneEvent = [event] ∧ instantOf event = noon.instant.nanos := by
    simpa [List.map_eq_cons_iff] using one
  constructor
  · have past : ∀ event ∈ oneEvent.events.rows, instantOf event ≤ nextNoon.nanos := by decide +kernel
    obtain ⟨cutoff, sub, year⟩ : ∃ cutoff, (Duration.hours 24).bind nextNoon.sub = some cutoff ∧ yearOf cutoff.day < 10000 := by
      have four : ((Duration.hours 24).bind nextNoon.sub).any (fun cutoff => yearOf cutoff.day < 10000) = true := by decide
      simpa [Option.any_eq_true] using four
    refine (activityStats_exact_iff plainArgon2 [(noonWorld 0, .upsertBatchWithEvents [Retention.noonInput])] noon "web"
      nextNoon past).mpr ⟨cutoff, sub, .inr ?_⟩
    change IsGreatest (instants (projectEvents "web" oneEvent)) _ ∧ (∀ event ∈ projectEvents "web" oneEvent, _) ∧ _
    rw [only]
    refine ⟨⟨⟨event, List.mem_singleton.mpr rfl, at_noon⟩, ?_⟩, ?_, year⟩
    · rintro t ⟨other, mem, rfl⟩
      rw [List.mem_singleton.mp mem, at_noon]
    · intro other mem
      rw [List.mem_singleton.mp mem, age, at_noon]
      decide
  · have past : ∀ event ∈ oneEvent.events.rows, instantOf event ≤ noon.instant.nanos := by decide +kernel
    intro exact
    obtain ⟨cutoff, -, none_ | ⟨-, old, -⟩⟩ := (activityStats_exact_iff plainArgon2
      [(noonWorld 0, .upsertBatchWithEvents [Retention.noonInput])] noon "web" noon.instant past).mp exact
    · exact absurd (only.symm.trans none_) (List.cons_ne_nil _ _)
    · have young := old event (show event ∈ projectEvents "web" oneEvent by simp [only])
      rw [age, at_noon] at young
      revert young
      decide

theorem oneEvent_counts : (activityStats noon "web" noon.instant oneEvent).map
    (fun stats => (stats.events24h, stats.hourlyBuckets.sum)) = some (1, 0) := by decide +kernel

theorem activityStats_not_exact :
    ¬ ∀ (argon2 : Argon2) (calls : List (World × Call)) (clock : UtcNow) (project : String) (now : DateTime),
      let db := performAll (exec argon2) calls Db.empty
      (∀ call ∈ calls, ∃ batch, call.2 = .upsertBatchWithEvents batch) →
      (∀ event ∈ db.events.rows, instantOf event ≤ now.nanos) →
      ∃ stats, activityStats clock project now db = some stats ∧ Exact now (projectEvents project db) stats := by
  intro exact
  have past : ∀ event ∈ oneEvent.events.rows, instantOf event ≤ noon.instant.nanos := by decide +kernel
  obtain ⟨stats, ran, right⟩ := exact plainArgon2 [(noonWorld 0, .upsertBatchWithEvents [Retention.noonInput])] noon "web"
    noon.instant (by simp) past
  obtain ⟨closed, -, -, -, total, -⟩ := right.window
  have counts := oneEvent_counts
  rw [oneEvent, ran, Option.map_some, total] at counts
  have both := Prod.mk.inj (Option.some_inj.mp counts)
  exact absurd (both.1.symm.trans both.2) (by decide)

end Errex.Proof.Activity
