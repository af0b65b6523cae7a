import Errex.Proof.Issues.Integrity
import Errex.Spec.History

/-!
# The issues table summarises the history of every key

A `Log` records, for every key, the inputs and triage decisions in the order in which the calls
process them. The rows hold the summaries of the log (`Tracks`), every upsert reports its row as it
stands right after it, and an issue keeps its id.
-/

namespace Errex.Proof.Issues
open Foundation Transaction Model Store Spec

abbrev Key := String × String

abbrev Log := List (Key × Occurrence)

def Log.of (log : Log) (key : Key) : List Occurrence :=
  log.filterMap fun entry => if entry.1 = key then some entry.2 else none

def arrivalEntry (input : UpsertInput) : Key × Occurrence := (input.key, .arrival input)

theorem Log.of_append_same (log : Log) (key : Key) (occurrence : Occurrence) :
    (log ++ [(key, occurrence)]).of key = log.of key ++ [occurrence] := by
  simp [Log.of]

theorem Log.of_append_other (log : Log) {key key' : Key} (other : key' ≠ key) (occurrence : Occurrence) :
    (log ++ [(key', occurrence)]).of key = log.of key := by
  simp [Log.of, other]

theorem bumped_row (input : UpsertInput) (id : Int) (key : Key) (s : Summary) :
    (s.bumped input).row id key = bumpIssue input (reopened (s.row id key).status) (s.row id key) := by
  obtain ⟨_, _, _, _, _, _, status⟩ := s
  cases status <;> rfl

theorem triaged_row (status : IssueStatus) (id : Int) (key : Key) (s : Summary) :
    (s.triaged status).row id key = triageIssue status (s.row id key) := rfl

/-- The rows are the summaries of the log. -/
def Tracks (db : Db) (log : Log) : Prop :=
  ∀ key, ∃ id, db.issues.find? key = (Summary.of (log.of key)).map (Summary.row id key)

theorem tracks_empty : Tracks Db.empty [] := fun _ => ⟨0, rfl⟩

def IdsKept (db db' : Db) : Prop :=
  ∀ key row, db.issues.find? key = some row → ∃ row', db'.issues.find? key = some row' ∧ row'.id = row.id

theorem IdsKept.refl (db : Db) : IdsKept db db := fun _ row found => ⟨row, found, rfl⟩

theorem IdsKept.trans {db db' db'' : Db} (first : IdsKept db db') (second : IdsKept db' db'') :
    IdsKept db db'' := by
  intro key row found
  obtain ⟨row', found', same⟩ := first key row found
  obtain ⟨row'', found'', same'⟩ := second key row' found'
  exact ⟨row'', found'', same'.trans same⟩

structure Arrival where
  before : Log
  input : UpsertInput

def arrivalsAfter (before : Log) : Log → List Arrival
  | [] => []
  | (key, .arrival input) :: rest => ⟨before, input⟩ :: arrivalsAfter (before ++ [(key, .arrival input)]) rest
  | (key, .triage status) :: rest => arrivalsAfter (before ++ [(key, .triage status)]) rest

theorem arrivalsAfter_append (before log log' : Log) :
    arrivalsAfter before (log ++ log') = arrivalsAfter before log ++ arrivalsAfter (before ++ log) log' := by
  induction log generalizing before with
  | nil => simp [arrivalsAfter]
  | cons entry log ih =>
      obtain ⟨key, occurrence⟩ := entry
      cases occurrence <;> simp [arrivalsAfter, ih]

/-- What an upsert reports: whether the input is the first one of its key, whether the issue was
resolved just before, and its row right after; the row has the id that the issue has in `db`. -/
structure Reports (db : Db) (arrival : Arrival) (result : UpsertResult) : Prop where
  created : result.created = decide (arrivals (arrival.before.of arrival.input.key) = [])
  regressed : result.regressed =
    decide (statusAfter (arrival.before.of arrival.input.key) = some .resolved)
  issue : ∃ now summary stored,
    Summary.of (arrival.before.of arrival.input.key ++ [.arrival arrival.input]) = some summary ∧
    db.issues.find? arrival.input.key = some stored ∧
    result.issue = Issue.ofRow now (summary.row stored.id arrival.input.key)

theorem Reports.mono {db db' : Db} {arrival : Arrival} {result : UpsertResult} (kept : IdsKept db db')
    (reports : Reports db arrival result) : Reports db' arrival result := by
  obtain ⟨created, regressed, now, summary, stored, known, found, issue⟩ := reports
  obtain ⟨row, found', same⟩ := kept _ stored found
  exact ⟨created, regressed, now, summary, row, known, found', by rw [issue, same]⟩

theorem Tracks.step {db db' : Db} {log : Log} (tracks : Tracks db log) {key : Key} {occurrence : Occurrence}
    (summary : Summary) (id : Int) (known : Summary.of (log.of key ++ [occurrence]) = some summary)
    (finds : ∀ k, db'.issues.find? k = if key = k then some (summary.row id key) else db.issues.find? k) :
    Tracks db' (log ++ [(key, occurrence)]) := by
  intro k
  rw [finds k]
  split_ifs with same
  · subst same
    refine ⟨id, ?_⟩
    rw [Log.of_append_same, known, Option.map_some]
  · rw [Log.of_append_other log same]
    exact tracks k

theorem upsertedRow_eq_row {db : Db} {log : Log} (tracks : Tracks db log) (input : UpsertInput) :
    ∃ summary, Summary.of (log.of input.key ++ [.arrival input]) = some summary ∧
      upsertedRow input db = summary.row (upsertedRow input db).id input.key := by
  obtain ⟨id, here⟩ := tracks input.key
  rw [Summary.of_arrival]
  cases known : Summary.of (log.of input.key) with
  | none =>
      rw [known, Option.map_none] at here
      have row : upsertedRow input db = newIssue input (db.issueSeq + 1) := by
        simp only [upsertedRow, here]
      exact ⟨_, rfl, by rw [row]; rfl⟩
  | some summary =>
      rw [known, Option.map_some] at here
      have row : upsertedRow input db = (summary.bumped input).row id input.key := by
        rw [bumped_row, upsertedRow, here]
      exact ⟨_, rfl, by rw [row]; rfl⟩

theorem upsertedRow_id {db : Db} {input : UpsertInput} {old : IssueRow}
    (found : db.issues.find? input.key = some old) : (upsertedRow input db).id = old.id := by
  simp [upsertedRow, found, bumpIssue]

theorem upsertRow_tracks {db : Db} {log : Log} (tracks : Tracks db log) (input : UpsertInput) :
    ∃ row created regressed db', upsertRow input db = .ok ((row, created, regressed), db') ∧
      Tracks db' (log ++ [arrivalEntry input]) ∧ IdsKept db db' ∧ db'.issues.find? input.key = some row ∧
      ∀ now, Reports db' ⟨log, input⟩ ⟨Issue.ofRow now row, created, regressed⟩ := by
  obtain ⟨db', upserted, finds⟩ := upsertRow_spec input db
  obtain ⟨summary, next, row⟩ := upsertedRow_eq_row tracks input
  have now_found := (finds input.key).trans (if_pos rfl)
  have tracks' : Tracks db' (log ++ [arrivalEntry input]) :=
    tracks.step _ _ next fun k => by rw [finds, ← row]
  refine ⟨_, _, _, db', upserted, tracks', ?_, now_found, fun now => ⟨?_, ?_, ?_⟩⟩
  · intro key old found
    by_cases same : input.key = key
    · subst same
      exact ⟨_, now_found, upsertedRow_id found⟩
    · exact ⟨old, ((finds key).trans (if_neg same)).trans found, rfl⟩
  · obtain ⟨id, here⟩ := tracks input.key
    simp only [here, Option.isNone_map, ← Summary.of_eq_none_iff]
    cases Summary.of (log.of input.key) <;> rfl
  · obtain ⟨id, here⟩ := tracks input.key
    simp only [here, Summary.statusAfter_eq]
    cases Summary.of (log.of input.key) with
    | none => rfl
    | some before =>
        obtain ⟨_, _, _, _, _, _, status⟩ := before
        cases status <;> rfl
  · exact ⟨now, summary, _, next, now_found, by rw [← row]⟩

theorem Tracks.of_issues {db db' : Db} {log : Log} (tracks : Tracks db log) (same : db'.issues = db.issues) :
    Tracks db' log := by
  intro key
  rw [same]
  exact tracks key

theorem IdsKept.of_issues {db db' : Db} (same : db'.issues = db.issues) : IdsKept db db' := by
  intro key row found
  exact ⟨row, by rwa [same], rfl⟩

theorem upsertIssue_tracks {db : Db} {log : Log} (tracks : Tracks db log) (now : UtcNow)
    (input : UpsertInput) :
    ∃ result db', upsertIssue now input db = .ok (result, db') ∧ Tracks db' (log ++ [arrivalEntry input]) ∧
      IdsKept db db' ∧ Reports db' ⟨log, input⟩ result := by
  obtain ⟨row, created, regressed, db', upserted, tracks', kept, -, reports⟩ := upsertRow_tracks tracks input
  exact ⟨_, db', (bind_run_ok upserted).trans rfl, tracks', kept, reports now⟩

theorem upsertInput_tracks {db : Db} {log : Log} (tracks : Tracks db log) (now : UtcNow)
    (received : SqliteTime) (input : BatchUpsertInput) :
    ∃ result db', upsertInput now received input db = .ok (result, db') ∧
      Tracks db' (log ++ [arrivalEntry input.toUpsertInput]) ∧ IdsKept db db' ∧
      Reports db' ⟨log, input.toUpsertInput⟩ result := by
  obtain ⟨row, created, regressed, db₁, upserted, tracks', kept, found, reports⟩ :=
    upsertRow_tracks tracks input.toUpsertInput
  obtain ⟨db₂, stored, same⟩ := insertEvent_ok found received input.eventId input.payload
  have kept' : IdsKept db₁ db₂ := .of_issues same
  refine ⟨_, db₂, ?_, tracks'.of_issues same, kept.trans kept', (reports now).mono kept'⟩
  exact (bind_run_ok upserted).trans ((bind_run_ok stored).trans rfl)

def batchEntries (batch : List BatchUpsertInput) : Log := batch.map fun input => arrivalEntry input.toUpsertInput

theorem upsertBatchWithEvents_tracks (batch : List BatchUpsertInput) {db : Db} {log : Log}
    (tracks : Tracks db log) (now : UtcNow) (received : Nat → SqliteTime) :
    ∃ results db', upsertBatchWithEvents now received batch db = .ok (results, db') ∧
      Tracks db' (log ++ batchEntries batch) ∧ IdsKept db db' ∧
      List.Forall₂ (Reports db') (arrivalsAfter log (batchEntries batch)) results := by
  induction batch generalizing db log received with
  | nil => exact ⟨[], db, rfl, by simpa [batchEntries] using tracks, .refl db, .nil⟩
  | cons input batch ih =>
      obtain ⟨result, db₁, upserted, tracks₁, kept₁, reports⟩ :=
        upsertInput_tracks tracks now (received 0) input
      obtain ⟨results, db₂, rest, tracks₂, kept₂, each⟩ := ih tracks₁ fun n => received (n + 1)
      refine ⟨result :: results, db₂, ?_, ?_, kept₁.trans kept₂, .cons (reports.mono kept₂) each⟩
      · exact (bind_run_ok upserted).trans ((bind_run_ok rest).trans rfl)
      · simpa [batchEntries] using tracks₂

theorem issueOfId_eq_some {db : Db} (sound : Integrity db) {issueId : Int} {row : IssueRow}
    (found : issueOfId issueId db = some row) :
    db.issues.find? row.key = some row ∧
      ∀ other ∈ db.issues.rows, (other.id == issueId) = true ↔ other = row := by
  have mem := List.mem_of_find?_eq_some found
  have id : row.id = issueId := by simpa using List.find?_some found
  refine ⟨Table.find?_of_mem mem, ?_⟩
  intro other stored
  rw [beq_iff_eq]
  constructor
  · intro same
    exact sound.eq_of_id_eq stored mem (same.trans id.symm)
  · rintro rfl
    exact id

theorem setStatus_tracks {db : Db} {log : Log} (sound : Integrity db) (tracks : Tracks db log) (now : UtcNow)
    {issueId : Int} {row : IssueRow} (found : issueOfId issueId db = some row) (status : IssueStatus) :
    ∃ issue, setStatus now issueId status db = .ok (issue, (updateStatus issueId status db).2) ∧
      Tracks (updateStatus issueId status db).2 (log ++ [(row.key, .triage status)]) ∧
      IdsKept db (updateStatus issueId status db).2 := by
  obtain ⟨stored, only⟩ := issueOfId_eq_some sound found
  have finds : ∀ k, (updateStatus issueId status db).2.issues.find? k =
      if row.key = k then some (triageIssue status row) else db.issues.find? k := by
    intro k
    refine (Table.find?_update (triageIssue_key status)).trans ?_
    split_ifs with same
    · subst same
      rw [stored, Option.map_some, if_pos ((only row (Table.mem_of_find? stored)).mpr rfl)]
    · cases there : db.issues.find? k with
      | none => rfl
      | some other =>
          have different : other ≠ row := by
            rintro rfl
            exact same (Table.key_of_find? there)
          rw [Option.map_some, if_neg (different ∘ (only other (Table.mem_of_find? there)).mp)]
  have id : row.id = issueId := by simpa using (only row (Table.mem_of_find? stored)).mpr rfl
  have affected : (updateStatus issueId status db).1 ≠ 0 := by
    have counted : 0 < db.issues.rows.countP (·.id == issueId) :=
      List.countP_pos_iff.mpr ⟨row, Table.mem_of_find? stored, by simpa using id⟩
    exact counted.ne'
  obtain ⟨after, read⟩ : ∃ after, issueOfId issueId (updateStatus issueId status db).2 = some after := by
    refine Option.isSome_iff_exists.mp (List.find?_isSome.mpr ⟨triageIssue status row, ?_, ?_⟩)
    · exact Table.mem_of_find? ((finds row.key).trans (if_pos rfl))
    · exact beq_iff_eq.mpr id
  refine ⟨Issue.ofRow now after, ?_, ?_, ?_⟩
  · simp only [setStatus, bind_run, execute_run, Except.bind, affected, if_false, Tx.fetchOne]
    rw [fetchOne_run read]
    rfl
  · obtain ⟨id, here⟩ := tracks row.key
    rw [stored] at here
    cases known : Summary.of (log.of row.key) with
    | none => simp [known] at here
    | some summary =>
        have held : row = summary.row id row.key := by simpa [known] using here
        refine tracks.step (summary.triaged status) id ?_ fun k => ?_
        · rw [Summary.of_triage, known, Option.map_some]
        · rw [finds, triaged_row, ← held]
  · intro key other there
    by_cases same : row.key = key
    · subst same
      obtain rfl : row = other := Option.some.inj (stored.symm.trans there)
      exact ⟨_, (finds _).trans (if_pos rfl), rfl⟩
    · exact ⟨other, ((finds key).trans (if_neg same)).trans there, rfl⟩

theorem setStatus_missing {db : Db} (now : UtcNow) {issueId : Int} (missing : issueOfId issueId db = none)
    (status : IssueStatus) : ∃ error, setStatus now issueId status db = .error error := by
  have affected : (updateStatus issueId status db).1 = 0 := by
    simpa [updateStatus, Table.count, issueOfId] using missing
  refine ⟨.notFound s!"issue {issueId}", ?_⟩
  simp only [setStatus, bind_run, execute_run, Except.bind, affected, if_true, fail_run]

/-- Upserts and triage decisions, without a failure from outside. -/
def IsHealthyIssueCall (call : World × Call) : Prop :=
  call.1.fault = none ∧ match call.2 with
    | .upsertIssue _ | .upsertBatchWithEvents _ | .setStatus _ _ => True
    | _ => False

def entries (db : Db) : Call → Log
  | .upsertIssue input => [arrivalEntry input]
  | .upsertBatchWithEvents batch => batchEntries batch
  | .setStatus issueId status => ((issueOfId issueId db).map fun row => (row.key, .triage status)).toList
  | _ => []

def returned (argon2 : Argon2) (w : World) (db : Db) : Call → List UpsertResult
  | .upsertIssue input =>
      match (exec argon2 w (.upsertIssue input) db).1 with
      | .ok result => [result]
      | .error _ => []
  | .upsertBatchWithEvents batch =>
      match (exec argon2 w (.upsertBatchWithEvents batch) db).1 with
      | .ok results => results
      | .error _ => []
  | _ => []

def logOf (argon2 : Argon2) : List (World × Call) → Db → Log
  | [], _ => []
  | (w, c) :: calls, db => entries db c ++ logOf argon2 calls (exec argon2 w c db).2

def returnedBy (argon2 : Argon2) : List (World × Call) → Db → List UpsertResult
  | [], _ => []
  | (w, c) :: calls, db => returned argon2 w db c ++ returnedBy argon2 calls (exec argon2 w c db).2

variable {argon2 : Argon2}

theorem exec_tracks (argon2 : Argon2) {w : World} {c : Call} (healthy : IsHealthyIssueCall (w, c)) {db : Db} {log : Log}
    (sound : Integrity db) (tracks : Tracks db log) :
    Tracks (exec argon2 w c db).2 (log ++ entries db c) ∧ IdsKept db (exec argon2 w c db).2 ∧
      List.Forall₂ (Reports (exec argon2 w c db).2) (arrivalsAfter log (entries db c))
        (returned argon2 w db c) := by
  obtain ⟨calm, kind⟩ := healthy
  cases c <;> simp only at kind
  case upsertIssue input =>
    obtain ⟨result, db', done, tracks', kept, reports⟩ := upsertIssue_tracks tracks w.now input
    have effect : exec argon2 w (.upsertIssue input) db = (.ok result, db') := by
      simp only [exec, transact_calm calm, done]
      rfl
    simp only [returned, effect]
    exact ⟨tracks', kept, .cons reports .nil⟩
  case upsertBatchWithEvents batch =>
    obtain ⟨results, db', done, tracks', kept, reports⟩ :=
      upsertBatchWithEvents_tracks batch tracks w.now w.received
    have effect : exec argon2 w (.upsertBatchWithEvents batch) db = (.ok results, db') := by
      simp only [exec, transact_calm calm, done]
      rfl
    simp only [returned, effect]
    exact ⟨tracks', kept, reports⟩
  case setStatus issueId status =>
    cases found : issueOfId issueId db with
    | none =>
        obtain ⟨error, failed⟩ := setStatus_missing w.now found status
        have effect : exec argon2 w (.setStatus issueId status) db = (.error error, db) := by
          simp only [exec, transact_calm calm, failed]
          rfl
        simp only [entries, returned, effect, found, Option.map_none, Option.toList_none, List.append_nil]
        exact ⟨tracks, .refl db, .nil⟩
    | some row =>
        obtain ⟨issue, done, tracks', kept⟩ := setStatus_tracks sound tracks w.now found status
        have effect : exec argon2 w (.setStatus issueId status) db =
            (.ok issue, (updateStatus issueId status db).2) := by
          simp only [exec, transact_calm calm, done]
          rfl
        simp only [entries, returned, effect, found, Option.map_some, Option.toList_some]
        exact ⟨tracks', kept, .nil⟩

theorem performAll_tracks (argon2 : Argon2) (calls : List (World × Call)) (healthy : ∀ call ∈ calls, IsHealthyIssueCall call)
    {db : Db} {log : Log} (sound : Integrity db) (tracks : Tracks db log) :
    Tracks (performAll (exec argon2) calls db) (log ++ logOf argon2 calls db) ∧
      IdsKept db (performAll (exec argon2) calls db) ∧
      List.Forall₂ (Reports (performAll (exec argon2) calls db)) (arrivalsAfter log (logOf argon2 calls db))
        (returnedBy argon2 calls db) := by
  induction calls generalizing db log with
  | nil =>
      refine ⟨?_, .refl db, .nil⟩
      rw [logOf, List.append_nil]
      exact tracks
  | cons call calls ih =>
      obtain ⟨w, c⟩ := call
      obtain ⟨tracks₁, kept₁, reports₁⟩ := exec_tracks argon2 (healthy (w, c) (by simp)) sound tracks
      obtain ⟨tracks₂, kept₂, reports₂⟩ := ih (fun call mem => healthy call (by simp [mem]))
        (exec_integrity argon2 w c db sound) tracks₁
      refine ⟨?_, kept₁.trans kept₂, ?_⟩
      · rw [logOf, ← List.append_assoc]
        exact tracks₂
      · simp only [logOf, returnedBy, arrivalsAfter_append]
        exact List.rel_append (reports₁.imp fun _ _ reports => reports.mono kept₂) reports₂

/-- What the issues table and the results of a sequence of calls say about its log. -/
structure SummarisesHistory (argon2 : Argon2) (calls : List (World × Call)) : Prop where
  one_row : ∀ key, ((performAll (exec argon2) calls Db.empty).issues.rows.filter (·.key = key)).length =
    if arrivals ((logOf argon2 calls Db.empty).of key) = [] then 0 else 1
  row_is_summary : ∀ row ∈ (performAll (exec argon2) calls Db.empty).issues.rows,
    ∃ summary, Summary.of ((logOf argon2 calls Db.empty).of row.key) = some summary ∧
      row = summary.row row.id row.key
  results_report : List.Forall₂ (Reports (performAll (exec argon2) calls Db.empty))
    (arrivalsAfter [] (logOf argon2 calls Db.empty)) (returnedBy argon2 calls Db.empty)

/-- In any sequence of upserts and triage decisions, however the inputs are cut into batches, the
issues table summarises the history of every key, and every result reports its input. -/
theorem performAll_summarises_history (argon2 : Argon2) (calls : List (World × Call))
    (healthy : ∀ call ∈ calls, IsHealthyIssueCall call) : SummarisesHistory argon2 calls := by
  obtain ⟨tracks, -, reports⟩ := performAll_tracks argon2 calls healthy Integrity.empty tracks_empty
  rw [List.nil_append] at tracks
  refine ⟨?_, ?_, reports⟩
  · intro key
    obtain ⟨id, here⟩ := tracks key
    have rows := Table.filter_key (performAll (exec argon2) calls Db.empty).issues key
    rw [here] at rows
    rw [rows]
    cases known : Summary.of ((logOf argon2 calls Db.empty).of key) with
    | none => simp [(Summary.of_eq_none_iff _).mp known]
    | some summary =>
        have later : arrivals ((logOf argon2 calls Db.empty).of key) ≠ [] := by
          rw [Ne, ← Summary.of_eq_none_iff, known]
          simp
        simp [later]
  · intro row mem
    obtain ⟨id, here⟩ := tracks row.key
    rw [Table.find?_of_mem mem] at here
    cases known : Summary.of ((logOf argon2 calls Db.empty).of row.key) with
    | none => simp [known] at here
    | some summary =>
        have held : row = summary.row id row.key := by simpa [known] using here
        have same : row.id = id := congrArg IssueRow.id held
        exact ⟨summary, rfl, by rw [same]; exact held⟩

def sampleInput (fp eventId : String) : BatchUpsertInput where
  project := "web"
  fp := fp
  title := "boom"
  culprit := none
  level := some "error"
  now := noon.instant
  eventId := eventId
  payload := "\x7b\x7d"

def sampleCalls : List (World × Call) :=
  [(noonWorld 0, .upsertBatchWithEvents [sampleInput "f1" "a", sampleInput "f2" "b", sampleInput "f1" "c"]),
    (noonWorld 0, .setStatus 1 .resolved),
    (noonWorld 0, .upsertIssue (sampleInput "f1" "d").toUpsertInput)]

theorem performAll_summarises_sample : SummarisesHistory plainArgon2 sampleCalls :=
  performAll_summarises_history plainArgon2 sampleCalls (by simp [sampleCalls, IsHealthyIssueCall, noonWorld])

end Errex.Proof.Issues
