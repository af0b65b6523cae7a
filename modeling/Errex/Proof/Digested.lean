import Errex.Proof.DigestTask
import Errex.Proof.Issues.History

/-!
# From the channel to the issues table

While no database error comes in between, the issues table and the broadcasts are those of the sent events one by one:
however the task cuts them into batches, and whoever triages issues meanwhile.
-/

namespace Errex.Proof.DigestTask
open Foundation Transaction Model Store Digest Issues Spec

def answered (s : State) : List IngestEvent := s.rounds.flatMap (·.batch)

def told (s : State) : List ServerMessage := s.rounds.flatMap (·.messages)

def inputsOf (key : Key) (events : List IngestEvent) : List UpsertInput :=
  (events.map (·.input.toUpsertInput)).filter (·.key = key)

theorem inputsOf_append (key : Key) (events later : List IngestEvent) :
    inputsOf key (events ++ later) = inputsOf key events ++ inputsOf key later := by
  simp [inputsOf]

/-- The message for an event after others: its issue, with one more event than before, is new if it is the first one. -/
def Told (before : List IngestEvent) (event : IngestEvent) (m : ServerMessage) : Prop :=
  ∃ issue : Issue, (issue.project, issue.fingerprint) = event.input.key ∧
    issue.eventCount = (inputsOf event.input.key before).length + 1 ∧
    m = if inputsOf event.input.key before = [] then .issueCreated issue else .issueUpdated issue

def Tells (before : List IngestEvent) : List IngestEvent → List ServerMessage → Prop
  | [], [] => True
  | event :: events, m :: messages => Told before event m ∧ Tells (before ++ [event]) events messages
  | _, _ => False

theorem Tells.append {before events later : List IngestEvent} {messages more : List ServerMessage}
    (first : Tells before events messages) (second : Tells (before ++ events) later more) :
    Tells before (events ++ later) (messages ++ more) := by
  induction events generalizing before messages with
  | nil =>
      cases messages with
      | nil => simpa using second
      | cons m messages => exact first.elim
  | cons event events ih =>
      cases messages with
      | nil => exact first.elim
      | cons m messages =>
          obtain ⟨here, rest⟩ := first
          refine ⟨here, ih rest ?_⟩
          rwa [List.append_assoc, List.singleton_append]

def Logged (log : Log) (events : List IngestEvent) : Prop := ∀ key, arrivals (log.of key) = inputsOf key events

theorem Logged.arrival {log : Log} {events : List IngestEvent} (logged : Logged log events) (event : IngestEvent) :
    Logged (log ++ [arrivalEntry event.input.toUpsertInput]) (events ++ [event]) := by
  intro key
  rw [inputsOf_append, ← logged key]
  by_cases same : event.input.key = key
  · subst same
    rw [arrivalEntry, Log.of_append_same, arrivals_append_arrival]
    simp [inputsOf]
  · rw [arrivalEntry, Log.of_append_other log same]
    simp [inputsOf, same]

theorem Logged.triage {log : Log} {events : List IngestEvent} (logged : Logged log events) (key : Key)
    (status : IssueStatus) : Logged (log ++ [(key, .triage status)]) events := by
  intro k
  rw [← logged k]
  by_cases same : key = k
  · rw [same, Log.of_append_same, arrivals_append_triage]
  · rw [Log.of_append_other log same]

theorem eventCount_of {history : List Occurrence} {summary : Summary} (known : Summary.of history = some summary) :
    summary.eventCount = (arrivals history).length := by
  unfold Summary.of at known
  split at known
  · cases known
  · rename_i first rest inputs
    cases known
    rw [inputs]

theorem told_of_reports {db : Db} {log : Log} {before : List IngestEvent} (logged : Logged log before)
    {event : IngestEvent} {result : UpsertResult} (reports : Reports db ⟨log, event.input.toUpsertInput⟩ result) :
    Told before event (message result) := by
  obtain ⟨created, -, now, summary, stored, known, -, issue⟩ := reports
  have count : summary.eventCount = (inputsOf event.input.key before).length + 1 := by
    rw [eventCount_of known, arrivals_append_arrival, logged event.input.key, List.length_append, List.length_singleton]
  refine ⟨result.issue, ?_, ?_, ?_⟩
  · rw [issue]
    rfl
  · rw [issue]
    exact congrArg Nat.cast count
  · rw [message, created]
    simp only [decide_eq_true_eq]
    rw [logged event.input.key]

theorem batch_told (now : UtcNow) (batch : List IngestEvent) {received : Nat → SqliteTime} {db db' : Db} {log : Log}
    {before : List IngestEvent} {results : List UpsertResult} (tracks : Tracks db log) (logged : Logged log before)
    (done : upsertBatchWithEvents now received (batch.map (·.input)) db = .ok (results, db')) :
    Tells before batch (results.map message) ∧ ∃ log', Tracks db' log' ∧ Logged log' (before ++ batch) := by
  induction batch generalizing received db log before results with
  | nil =>
      cases done
      exact ⟨trivial, log, tracks, by rwa [List.append_nil]⟩
  | cons event batch ih =>
      obtain ⟨result, db₁, first, rest⟩ := bind_eq_ok_iff.mp done
      obtain ⟨results, db₂, later, done⟩ := bind_eq_ok_iff.mp rest
      obtain ⟨result', db₁', upserted, tracks', -, reports⟩ := upsertInput_tracks tracks now (received 0) event.input
      cases first.symm.trans upserted
      cases done
      obtain ⟨tells, log', kept, whole⟩ := ih tracks' (logged.arrival event) later
      refine ⟨⟨told_of_reports logged reports, tells⟩, log', kept, ?_⟩
      rwa [List.append_assoc, List.singleton_append] at whole

theorem broadcasts_eq {now : UtcNow} {received : Nat → SqliteTime} {batch : List IngestEvent} {db db' : Db}
    {results : List UpsertResult}
    (done : upsertBatchWithEvents now received (batch.map (·.input)) db = .ok (results, db')) :
    broadcasts batch (.ok results) = results.map message := by
  rw [broadcasts, ← Function.comp_def message, ← List.map_map]
  exact congrArg (List.map message) (List.map_snd_zip (batch_about done).length_eq.ge)

/-- The row of a key says what the inputs of the key say together. -/
def Summarises (db : Db) (key : Key) : List UpsertInput → Prop
  | [] => db.issues.find? key = none
  | first :: rest => ∃ row, db.issues.find? key = some row ∧ row.title = first.title ∧ row.culprit = first.culprit ∧
      row.level = first.level ∧ row.firstSeen = first.now.toRfc3339 ∧
      row.lastSeen = (rest.getLastD first).now.toRfc3339 ∧ row.eventCount = (first :: rest).length

theorem summarises_of_tracks {db : Db} {log : Log} (tracks : Tracks db log) {events : List IngestEvent}
    (logged : Logged log events) (key : Key) : Summarises db key (inputsOf key events) := by
  obtain ⟨id, found⟩ := tracks key
  rw [← logged key]
  rw [Summary.of] at found
  cases inputs : arrivals (log.of key) with
  | nil =>
      rw [inputs] at found
      exact found
  | cons first rest =>
      rw [inputs] at found
      exact ⟨_, found, rfl, rfl, rfl, rfl, rfl, rfl⟩

/-- The database gives no error, and whatever else is done to it are triage decisions. -/
def Calm (argon2 : Argon2) (s : State) : Action → Prop
  | .answer w => w.fault = none
  | .elsewhere db => ∃ w issueId status, w.fault = none ∧ db = (exec argon2 w (.setStatus issueId status) s.db).2
  | _ => True

structure Digested (s : State) : Prop where
  sound : Integrity s.db
  tracks : ∃ log, Tracks s.db log ∧ Logged log (answered s)
  tells : Tells [] (answered s) (told s)

theorem Digested.initial : Digested (.initial Db.empty) where
  sound := Integrity.empty
  tracks := ⟨[], tracks_empty, fun _ => rfl⟩
  tells := trivial

theorem Digested.of_same {s s' : State} (digested : Digested s) (db : s'.db = s.db) (rounds : s'.rounds = s.rounds) :
    Digested s' := by
  obtain ⟨sound, tracks, tells⟩ := digested
  refine ⟨by rwa [db], ?_, ?_⟩
  · rw [db, answered, rounds]
    exact tracks
  · rw [answered, told, rounds]
    exact tells

theorem hand_same (s : State) : (hand s).db = s.db ∧ (hand s).rounds = s.rounds := by
  unfold hand
  split_ifs <;> exact ⟨rfl, rfl⟩

theorem Digested.answer {s : State} (digested : Digested s) (capacity : Nat) {w : World} (calm : w.fault = none) :
    Digested (Digest.step capacity s (.answer w)) := by
  rw [Digest.step]
  split
  · obtain ⟨sound, ⟨log, tracks, logged⟩, tells⟩ := digested
    obtain ⟨results, db, done, -⟩ :=
      upsertBatchWithEvents_tracks (s.buffer.map (·.input)) tracks w.now w.received
    have reply : transact w (upsertBatchWithEvents w.now w.received (s.buffer.map (·.input))) s.db = (.ok results, db) := by
      rw [transact_calm calm, done]
    obtain ⟨more, log', tracks', logged'⟩ := batch_told w.now s.buffer tracks logged done
    rw [reply]
    refine ⟨?_, ⟨log', tracks', ?_⟩, ?_⟩
    · exact upsertBatchWithEvents_keeps (Integrity.upsertInput_keeps _) _ _ _ _ _ done sound
    · simpa [answered] using logged'
    · simpa [answered, told, broadcasts_eq done] using tells.append more
  · exact digested

theorem Digested.elsewhere {s : State} (digested : Digested s) (argon2 : Argon2) {w : World} (calm : w.fault = none)
    (issueId : Int) (status : IssueStatus) :
    Digested { s with db := (exec argon2 w (.setStatus issueId status) s.db).2 } := by
  obtain ⟨sound, ⟨log, tracks, logged⟩, tells⟩ := digested
  have healthy : IsHealthyIssueCall (w, .setStatus issueId status) := ⟨calm, trivial⟩
  obtain ⟨tracks', -, -⟩ := exec_tracks argon2 healthy sound tracks
  refine ⟨exec_integrity argon2 w _ s.db sound, ⟨_, tracks', ?_⟩, tells⟩
  rw [entries]
  cases issueOfId issueId s.db with
  | none =>
      rw [Option.map_none, Option.toList_none, List.append_nil]
      exact logged
  | some row => exact logged.triage row.key status

theorem Digested.step {s : State} (digested : Digested s) (argon2 : Argon2) (capacity : Nat) (action : Action)
    (calm : Calm argon2 s action) : Digested (Digest.step capacity s action) := by
  cases action with
  | send event =>
      rw [Digest.step]
      split_ifs
      · exact digested
      · exact digested.of_same rfl rfl
  | close => exact digested.of_same rfl rfl
  | recv =>
      rw [Digest.step]
      split
      · exact digested.of_same rfl rfl
      · split_ifs
        · exact digested.of_same rfl rfl
        · exact digested
      · exact digested
  | tryRecv =>
      rw [Digest.step]
      split
      · split_ifs
        · split
          · exact digested.of_same rfl rfl
          · exact digested.of_same (hand_same s).1 (hand_same s).2
        · exact digested.of_same (hand_same s).1 (hand_same s).2
      · exact digested
  | answer w => exact digested.answer capacity calm
  | elsewhere db =>
      obtain ⟨w, issueId, status, fine, rfl⟩ := calm
      exact digested.elsewhere argon2 fine issueId status

/-- From an empty database without errors, whoever triages meanwhile: the issues table summarises the answered events of
every key, there is one broadcast for each of them in their order, and behind the loop they are all the events sent. -/
theorem run_digests_every_event (argon2 : Argon2) (capacity : Nat) (actions : List Action)
    (calm : Machine.Permits (Digest.step capacity) (Calm argon2) (.initial Db.empty) actions) :
    let s := Machine.run (Digest.step capacity) (.initial Db.empty) actions
    (∀ key, Summarises s.db key (inputsOf key (answered s))) ∧ Tells [] (answered s) (told s) ∧
      answered s <+: s.sent ∧ (s.stage = .exited → answered s = s.sent) := by
  intro s
  obtain ⟨-, ⟨log, tracks, logged⟩, tells⟩ : Digested s :=
    Machine.run_invariant Digested (fun _ action digested calm => digested.step argon2 capacity action calm) calm .initial
  obtain ⟨conserved, -, buffered, ordered, -⟩ : Orderly s :=
    Machine.run_keeps Orderly (fun _ action orderly => orderly.step capacity action) actions (.initial Db.empty)
  have handed : s.handed.flatten = answered s ++ if s.stage = .processing then s.buffer else [] := by
    rw [ordered]
    split_ifs <;> simp [answered, List.flatMap]
  rw [handed, List.append_assoc] at conserved
  refine ⟨summarises_of_tracks tracks logged, tells, ⟨_, conserved⟩, fun exited => ?_⟩
  rw [Buffered, exited] at buffered
  obtain ⟨empty, drained, -⟩ := buffered
  simpa [held, exited, empty, drained] using conserved

theorem run_digests_every_event_sample :
    let event (fp id : String) : IngestEvent := ⟨"web", fp, "boom", none, none, "E", "f:1", noon, id, "\x7b\x7d"⟩
    let first := Machine.run (Digest.step 4) (.initial Db.empty)
      [.send (event "f" "a"), .recv, .tryRecv, .send (event "g" "b"), .answer (noonWorld 0)]
    let s := Machine.run (Digest.step 4) first
      [.elsewhere (exec plainArgon2 (noonWorld 0) (.setStatus 1 .resolved) first.db).2, .send (event "f" "c"), .close,
        .recv, .tryRecv, .tryRecv, .answer (noonWorld 0), .recv]
    answered s = s.sent := by
  intro event first s
  have whole := run_digests_every_event plainArgon2 4
    ([.send (event "f" "a"), .recv, .tryRecv, .send (event "g" "b"), .answer (noonWorld 0)] ++
      [.elsewhere (exec plainArgon2 (noonWorld 0) (.setStatus 1 .resolved) first.db).2, .send (event "f" "c"), .close,
        .recv, .tryRecv, .tryRecv, .answer (noonWorld 0), .recv]) ?_
  · rw [Machine.run_append] at whole
    exact whole.2.2.2 (by decide +kernel)
  · rw [Machine.permits_append]
    refine ⟨⟨trivial, trivial, trivial, trivial, rfl, trivial⟩,
      ⟨noonWorld 0, 1, .resolved, rfl, rfl⟩, trivial, trivial, trivial, trivial, trivial, rfl, trivial, trivial⟩

end Errex.Proof.DigestTask
