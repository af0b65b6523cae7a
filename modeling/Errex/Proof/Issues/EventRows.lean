import Errex.Proof.Issues.Redelivery

/-!
# The event rows of a batch

An event whose id is taken is dropped, whichever issue took it. A batch leaves the event of every
input under the input's issue exactly when no id is taken by another issue, in the store or earlier
in the batch (`upsertBatchWithEvents_stores_iff`).
-/

namespace Errex.Proof.Issues
open Foundation Transaction Model Store

/-- Every input has a row under its event id, of the issue that is returned for it. -/
def StoresEvents (batch : List BatchUpsertInput) (results : List UpsertResult) (db : Db) : Prop :=
  List.Forall₂ (fun input result =>
    ∃ event ∈ db.events.rows, event.eventId = input.eventId ∧ event.issueId = result.issue.id) batch results

/-- No event id of the batch is taken by another issue than its input's. -/
structure EventIdsFree (batch : List BatchUpsertInput) (db : Db) : Prop where
  stored : ∀ input ∈ batch, ∀ event ∈ db.events.rows, event.eventId = input.eventId →
    ∃ row ∈ db.issues.rows, row.key = input.key ∧ row.id = event.issueId
  among : ∀ input ∈ batch, ∀ other ∈ batch, input.eventId = other.eventId → input.key = other.key

def issueIdOf (db : Db) (key : String × String) : Option Int := (db.issues.find? key).map (·.id)

def eventOwner (db : Db) (eventId : String) : Option Int := (db.events.find? eventId).map (·.issueId)

theorem issueIdOf_eq_some_iff {db : Db} {key : String × String} {id : Int} :
    issueIdOf db key = some id ↔ ∃ row ∈ db.issues.rows, row.key = key ∧ row.id = id := by
  simp only [issueIdOf, Option.map_eq_some_iff, Table.find?_eq_some_iff, and_assoc]

theorem eventOwner_eq_some_iff {db : Db} {eventId : String} {id : Int} :
    eventOwner db eventId = some id ↔ ∃ event ∈ db.events.rows, event.eventId = eventId ∧ event.issueId = id := by
  simp only [eventOwner, Option.map_eq_some_iff, Table.find?_eq_some_iff, and_assoc]

theorem Integrity.key_eq {db : Db} (sound : Integrity db) {key key' : String × String} {id : Int}
    (known : issueIdOf db key = some id) (known' : issueIdOf db key' = some id) : key = key' := by
  obtain ⟨row, mem, rfl, same⟩ := issueIdOf_eq_some_iff.mp known
  obtain ⟨row', mem', rfl, same'⟩ := issueIdOf_eq_some_iff.mp known'
  rw [sound.eq_of_id_eq mem mem' (same.trans same'.symm)]

theorem Integrity.owner_known {db : Db} (sound : Integrity db) {eventId : String} {id : Int}
    (owner : eventOwner db eventId = some id) : ∃ key, issueIdOf db key = some id := by
  obtain ⟨event, mem, -, rfl⟩ := eventOwner_eq_some_iff.mp owner
  obtain ⟨row, stored, same⟩ := sound.owned event mem
  exact ⟨row.key, issueIdOf_eq_some_iff.mpr ⟨row, stored, rfl, same⟩⟩

theorem insertEvent_owner {db : Db} {row : IssueRow} (mem : row ∈ db.issues.rows) (received : SqliteTime)
    (eventId payload : String) :
    ∃ db', insertEvent received row.id eventId payload db = .ok ((), db') ∧ db'.issues = db.issues ∧
      ∀ id, eventOwner db' id = (eventOwner db id).or (if eventId = id then some row.id else none) := by
  have owner : db.issues.rows.any (·.id == row.id) = true :=
    List.any_eq_true.mpr ⟨row, mem, beq_self_eq_true _⟩
  unfold insertEvent
  cases inserted : db.events.insert ⟨db.eventSeq + 1, row.id, eventId, payload, received⟩ with
  | none =>
      obtain ⟨event, found⟩ := Table.insert_eq_none_iff.mp inserted
      refine ⟨_, rfl, rfl, fun id => ?_⟩
      simp only [eventOwner]
      split_ifs with same
      · subst same
        rw [show db.events.find? eventId = some event from found]
        rfl
      · rw [Option.or_none]
  | some events =>
      refine ⟨{ db with events, eventSeq := db.eventSeq + 1 }, by simp [owner], rfl, fun id => ?_⟩
      simp only [eventOwner, Table.find?_of_insert inserted]
      split_ifs with same
      · subst same
        have free : db.events.find? eventId = none := Table.fresh_of_insert inserted
        rw [free]
        rfl
      · rw [Option.or_none]

theorem upsertInput_owner (now : UtcNow) (received : SqliteTime) (input : BatchUpsertInput) (db : Db) :
    ∃ result db', upsertInput now received input db = .ok (result, db') ∧
      (∀ key, issueIdOf db' key = if input.key = key then some result.issue.id else issueIdOf db key) ∧
      (∀ id, issueIdOf db input.key = some id → result.issue.id = id) ∧
      ∀ id, eventOwner db' id =
        (eventOwner db id).or (if input.eventId = id then some result.issue.id else none) := by
  obtain ⟨db₁, upserted, finds⟩ := upsertRow_spec input.toUpsertInput db
  have found : db₁.issues.find? input.key = some (upsertedRow input.toUpsertInput db) :=
    (finds input.key).trans (if_pos rfl)
  obtain ⟨db₂, stored, same, owners⟩ := insertEvent_owner (Table.mem_of_find? found) received
    input.eventId input.payload
  have keeps : (upsertRow input.toUpsertInput).Keeps (·.events = db.events) := by
    refine upsertRow_keeps (fun db₀ same => ?_) fun _ _ same => same
    unfold insertIssue
    split <;> exact same
  have events : db₁.events = db.events := keeps db _ db₁ upserted rfl
  refine ⟨_, db₂, (bind_run_ok upserted).trans ((bind_run_ok stored).trans rfl), ?_, ?_, ?_⟩
  · intro key
    simp only [issueIdOf, same, finds]
    split_ifs with equal
    · rfl
    · rfl
  · intro id known
    obtain ⟨old, before, rfl⟩ := Option.map_eq_some_iff.mp known
    simp only [Issue.ofRow, upsertedRow, before]
    rfl
  · intro id
    rw [owners id, eventOwner, eventOwner, events]
    rfl

def firstOwner (db : Db) (batch : List BatchUpsertInput) (eventId : String) : Option Int :=
  (batch.find? (·.eventId = eventId)).bind fun input => issueIdOf db input.key

theorem upsertBatchWithEvents_owners (now : UtcNow) (received : Nat → SqliteTime)
    (batch : List BatchUpsertInput) (db : Db) :
    ∃ results db', upsertBatchWithEvents now received batch db = .ok (results, db') ∧
      List.Forall₂ (fun input result => issueIdOf db' input.key = some result.issue.id) batch results ∧
      (∀ key id, issueIdOf db key = some id → issueIdOf db' key = some id) ∧
      ∀ id, eventOwner db' id = (eventOwner db id).or (firstOwner db' batch id) := by
  induction batch generalizing received db with
  | nil =>
      refine ⟨[], db, rfl, .nil, fun _ _ known => known, fun id => ?_⟩
      simp [firstOwner]
  | cons input batch ih =>
      obtain ⟨result, db₁, upserted, ids₁, stays₁, owners₁⟩ := upsertInput_owner now (received 0) input db
      obtain ⟨results, db₂, rest, ids₂, stays₂, owners₂⟩ := ih (fun n => received (n + 1)) db₁
      have mine : issueIdOf db₂ input.key = some result.issue.id := by
        apply stays₂
        rw [ids₁, if_pos rfl]
      refine ⟨result :: results, db₂, (bind_run_ok upserted).trans ((bind_run_ok rest).trans rfl),
        .cons mine ids₂, ?_, ?_⟩
      · intro key id known
        apply stays₂
        rw [ids₁]
        split_ifs with same
        · subst same
          rw [stays₁ id known]
        · exact known
      · intro id
        rw [owners₂, owners₁, Option.or_assoc]
        congr 1
        simp only [firstOwner, List.find?_cons]
        by_cases same : input.eventId = id
        · simp only [same, if_true, decide_true, Option.bind_some, mine]
          rfl
        · simp only [same, if_false, decide_false, Option.none_or]

theorem storesEvents_iff {batch : List BatchUpsertInput} {results : List UpsertResult} {db : Db}
    (ids : List.Forall₂ (fun input result => issueIdOf db input.key = some result.issue.id) batch results) :
    StoresEvents batch results db ↔ ∀ input ∈ batch, eventOwner db input.eventId = issueIdOf db input.key := by
  unfold StoresEvents
  induction ids with
  | nil => simp
  | cons known ids ih => rw [List.forall₂_cons, List.forall_mem_cons, ih, known, eventOwner_eq_some_iff]

theorem upsertBatchWithEvents_stores {now : UtcNow} {received : Nat → SqliteTime}
    {batch : List BatchUpsertInput} {db db' : Db} {results : List UpsertResult} (sound : Integrity db)
    (sound' : Integrity db') (done : upsertBatchWithEvents now received batch db = .ok (results, db')) :
    StoresEvents batch results db' ↔ EventIdsFree batch db := by
  obtain ⟨_, _, run, ids, stays, owners⟩ := upsertBatchWithEvents_owners now received batch db
  cases done.symm.trans run
  have known : ∀ input ∈ batch, ∃ id, issueIdOf db' input.key = some id := by
    intro input mem
    obtain ⟨n, inside, rfl⟩ := List.getElem_of_mem mem
    exact ⟨_, ids.get inside (ids.length_eq ▸ inside)⟩
  rw [storesEvents_iff ids]
  constructor
  · intro stores
    constructor
    · intro input mem event stored same
      have owner : eventOwner db input.eventId = some event.issueId :=
        eventOwner_eq_some_iff.mpr ⟨event, stored, same, rfl⟩
      obtain ⟨key, here⟩ := sound.owner_known owner
      have after : issueIdOf db' input.key = some event.issueId := by
        rw [← stores input mem, owners, owner, Option.some_or]
      obtain rfl := sound'.key_eq (stays key _ here) after
      exact issueIdOf_eq_some_iff.mp here
    · intro input mem other mem' same
      obtain ⟨id, here⟩ := known input mem
      have there : issueIdOf db' other.key = some id := by
        rw [← stores other mem', ← same, stores input mem, here]
      exact sound'.key_eq here there
  · intro free input mem
    rw [owners]
    cases owner : eventOwner db input.eventId with
    | some id =>
        obtain ⟨event, stored, same, rfl⟩ := eventOwner_eq_some_iff.mp owner
        have here := issueIdOf_eq_some_iff.mpr (free.stored input mem event stored same)
        rw [Option.some_or, stays _ _ here]
    | none =>
        rw [Option.none_or, firstOwner]
        cases first : batch.find? (·.eventId = input.eventId) with
        | none => simpa using List.find?_eq_none.mp first input mem
        | some other =>
            have same : other.eventId = input.eventId := by simpa using List.find?_some first
            rw [Option.bind_some, free.among other (List.mem_of_find?_eq_some first) input mem same]

/-- From any store that calls can produce, a batch that is answered with `Ok` has stored the event
of every input under the input's issue exactly when no event id of it was another issue's. -/
theorem upsertBatchWithEvents_stores_iff (argon2 : Argon2) (calls : List (World × Call)) (w : World)
    (batch : List BatchUpsertInput) (results : List UpsertResult)
    (ok : (exec argon2 w (.upsertBatchWithEvents batch) (performAll (exec argon2) calls Db.empty)).1 = .ok results) :
    StoresEvents batch results
        (exec argon2 w (.upsertBatchWithEvents batch) (performAll (exec argon2) calls Db.empty)).2 ↔
      EventIdsFree batch (performAll (exec argon2) calls Db.empty) := by
  have sound : Integrity (performAll (exec argon2) calls Db.empty) :=
    performAll_invariant (exec argon2) Integrity (exec_integrity argon2) calls Integrity.empty
  exact upsertBatchWithEvents_stores sound (exec_integrity argon2 w _ _ sound) (transact_ok ok)

theorem upsertBatchWithEvents_stores_sample :
    ∃ results, (exec plainArgon2 (noonWorld 0) (.upsertBatchWithEvents [sampleInput "f2" "b"]) deliveredDb).1 =
        .ok results ∧
      (StoresEvents [sampleInput "f2" "b"] results
          (exec plainArgon2 (noonWorld 0) (.upsertBatchWithEvents [sampleInput "f2" "b"]) deliveredDb).2 ↔
        EventIdsFree [sampleInput "f2" "b"] deliveredDb) :=
  ⟨_, rfl, upsertBatchWithEvents_stores_iff plainArgon2 [(noonWorld 0, .upsertBatchWithEvents [sampleInput "f1" "a"])]
    (noonWorld 0) [sampleInput "f2" "b"] _ rfl⟩

/-- An event is dropped, and its new issue has none, when another issue has an event of that id. -/
theorem upsertBatchWithEvents_drops_event :
    ¬ ∀ (argon2 : Argon2) (calls : List (World × Call)) (w : World) (batch : List BatchUpsertInput)
      (results : List UpsertResult),
      (exec argon2 w (.upsertBatchWithEvents batch) (performAll (exec argon2) calls Db.empty)).1 = .ok results →
      StoresEvents batch results
        (exec argon2 w (.upsertBatchWithEvents batch) (performAll (exec argon2) calls Db.empty)).2 := by
  intro stores
  have stored := stores plainArgon2 [(noonWorld 0, .upsertBatchWithEvents [sampleInput "f1" "a"])] (noonWorld 0)
    [sampleInput "f2" "a"] _ rfl
  obtain ⟨event, mem, same, owner⟩ := (List.forall₂_cons.mp stored).1
  obtain rfl := List.mem_singleton.mp mem
  exact absurd owner (by decide)

end Errex.Proof.Issues
