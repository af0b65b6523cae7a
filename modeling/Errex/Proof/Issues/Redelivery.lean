import Errex.Proof.Issues.History

/-!
# Redelivered events

The unique index on `event_id` drops the second copy of an event, but the upsert before it does not
look at the event: every input of a batch adds one to the count of its issue.
-/

namespace Errex.Proof.Issues
open Foundation Transaction Model Store

def IsRedelivery (db : Db) (input : BatchUpsertInput) : Prop :=
  ∃ row event, db.issues.find? input.key = some row ∧ event ∈ db.events.rows ∧
    event.issueId = row.id ∧ event.eventId = input.eventId

def standing (key : Key) (db : Db) : Option (Int × String × String) :=
  (db.issues.find? key).map fun row => (row.eventCount, row.lastSeen, row.status)

/-- The stored events; a dropped copy still draws an id, so the ids are left out. -/
def eventContents (db : Db) : List (Int × String × String × SqliteTime) :=
  db.events.rows.map fun event => (event.issueId, event.eventId, event.payload, event.receivedAt)

def skipping (position : Nat) (received : Nat → SqliteTime) (n : Nat) : SqliteTime :=
  received (if n < position then n else n + 1)

/-- A batch runs as if one of its inputs were absent, and reports nothing new for it. -/
structure IgnoresInput (now : UtcNow) (received : Nat → SqliteTime) (db : Db)
    (before : List BatchUpsertInput) (input : BatchUpsertInput) (after : List BatchUpsertInput) : Prop where
  runs : ∃ results results' db₁ db₂,
    upsertBatchWithEvents now received (before ++ input :: after) db = .ok (results, db₁) ∧
    upsertBatchWithEvents now (skipping before.length received) (before ++ after) db = .ok (results', db₂) ∧
    standing input.key db₁ = standing input.key db₂ ∧ eventContents db₁ = eventContents db₂ ∧
    ∃ result, results[before.length]? = some result ∧ result.created = false ∧ result.regressed = false

def countOf (key : Key) (db : Db) : Int := ((db.issues.find? key).map (·.eventCount)).getD 0

theorem countOf_eq {key : Key} {db db' : Db} (same : standing key db = standing key db') :
    countOf key db = countOf key db' := by
  have counts : ∀ db, countOf key db = ((standing key db).map (·.1)).getD 0 := by
    intro db
    rw [countOf, standing, Option.map_map]
    rfl
  rw [counts, counts, same]

theorem upsertedRow_eventCount (input : UpsertInput) (db : Db) :
    (upsertedRow input db).eventCount = countOf input.key db + 1 := by
  unfold upsertedRow countOf
  cases db.issues.find? input.key <;> rfl

theorem upsertInput_counts (now : UtcNow) (received : SqliteTime) (input : BatchUpsertInput) (db : Db) :
    ∃ result db', upsertInput now received input db = .ok (result, db') ∧
      ∀ key, countOf key db' = countOf key db + if input.key = key then 1 else 0 := by
  obtain ⟨db₁, upserted, finds⟩ := upsertRow_spec input.toUpsertInput db
  obtain ⟨db₂, stored, same⟩ := insertEvent_ok ((finds input.key).trans (if_pos rfl)) received
    input.eventId input.payload
  refine ⟨_, db₂, (bind_run_ok upserted).trans ((bind_run_ok stored).trans rfl), fun key => ?_⟩
  simp only [countOf, same, finds]
  split_ifs with equal
  · subst equal
    exact upsertedRow_eventCount input.toUpsertInput db
  · exact (add_zero _).symm

theorem upsertBatchWithEvents_counts (now : UtcNow) (received : Nat → SqliteTime)
    (batch : List BatchUpsertInput) (db : Db) :
    ∃ results db', upsertBatchWithEvents now received batch db = .ok (results, db') ∧
      ∀ key, countOf key db' = countOf key db + batch.countP fun input => input.key = key := by
  induction batch generalizing received db with
  | nil => exact ⟨[], db, rfl, fun key => (add_zero _).symm⟩
  | cons input batch ih =>
      obtain ⟨result, db₁, upserted, counts₁⟩ := upsertInput_counts now (received 0) input db
      obtain ⟨results, db₂, rest, counts₂⟩ := ih (fun n => received (n + 1)) db₁
      refine ⟨result :: results, db₂, ?_, fun key => ?_⟩
      · exact (bind_run_ok upserted).trans ((bind_run_ok rest).trans rfl)
      · rw [counts₂, counts₁, List.countP_cons]
        simp only [decide_eq_true_eq]
        push_cast
        omega

variable (now : UtcNow) (received : Nat → SqliteTime) (db : Db)

theorem countOf_lt_of_input (before : List BatchUpsertInput) {after : List BatchUpsertInput}
    {input : BatchUpsertInput} {db₁ db₂ : Db}
    {results results' : List UpsertResult} {received' : Nat → SqliteTime}
    (whole : upsertBatchWithEvents now received (before ++ input :: after) db = .ok (results, db₁))
    (without : upsertBatchWithEvents now received' (before ++ after) db = .ok (results', db₂)) :
    countOf input.key db₂ < countOf input.key db₁ := by
  obtain ⟨_, _, run, counts⟩ := upsertBatchWithEvents_counts now received (before ++ input :: after) db
  obtain ⟨_, _, run', counts'⟩ := upsertBatchWithEvents_counts now received' (before ++ after) db
  cases whole.symm.trans run
  cases without.symm.trans run'
  rw [counts, counts', List.countP_append, List.countP_append, List.countP_cons, if_pos (by simp)]
  omega

/-- A batch ignores none of its inputs, not even one whose event is stored already. -/
theorem upsertBatchWithEvents_ignores_no_input (before : List BatchUpsertInput) (input : BatchUpsertInput)
    (after : List BatchUpsertInput) : ¬ IgnoresInput now received db before input after := by
  rintro ⟨_, _, _, _, whole, without, same, -⟩
  have fewer := countOf_lt_of_input now received db before whole without
  rw [countOf_eq same] at fewer
  exact lt_irrefl _ fewer

def deliveredDb : Db :=
  performAll (exec plainArgon2) [(noonWorld 0, .upsertBatchWithEvents [sampleInput "f1" "a"])] Db.empty

theorem deliveredDb_redelivery_counts : IsRedelivery deliveredDb (sampleInput "f1" "a") ∧
    ¬ IgnoresInput noon (fun _ => noonReceived) deliveredDb [] (sampleInput "f1" "a") [] := by
  refine ⟨⟨_, _, rfl, List.mem_singleton.mpr rfl, rfl, rfl⟩, ?_⟩
  rintro ⟨_, _, _, _, whole, without, same, -⟩
  have fewer := countOf_lt_of_input noon _ deliveredDb [] whole without
  rw [countOf_eq same] at fewer
  exact lt_irrefl _ fewer

end Errex.Proof.Issues
