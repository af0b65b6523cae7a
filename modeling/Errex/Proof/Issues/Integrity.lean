import Errex.Proof.Frame
import Errex.Proof.Issues.Upsert

/-!
# Integrity of issues and events

Every event belongs to an issue, and no issue stores more events than it has counted. Each
statement on the two tables keeps that, also those that fail; an upsert counts an event before it
stores it, which leaves room for one more.
-/

namespace Errex.Proof.Issues
open Foundation Transaction Model Store

def storedEvents (db : Db) (id : Int) : Nat := db.events.count (·.issueId == id)

structure Integrity (db : Db) : Prop where
  ids_nodup : (db.issues.rows.map (·.id)).Nodup
  ids_le : ∀ row ∈ db.issues.rows, row.id ≤ db.issueSeq
  owned : ∀ event ∈ db.events.rows, ∃ row ∈ db.issues.rows, row.id = event.issueId
  counted : ∀ row ∈ db.issues.rows, 1 ≤ row.eventCount ∧ (storedEvents db row.id : Int) ≤ row.eventCount

namespace Integrity

theorem empty : Integrity Db.empty where
  ids_nodup := List.nodup_nil
  ids_le row mem := by simp [Db.empty] at mem
  owned event mem := by simp [Db.empty] at mem
  counted row mem := by simp [Db.empty] at mem

variable {db db' : Db}

theorem of_same (sound : Integrity db) (issues : db'.issues = db.issues ∧ db'.issueSeq = db.issueSeq)
    (events : db'.events = db.events ∧ db'.eventSeq = db.eventSeq) : Integrity db' := by
  obtain ⟨⟩ := db
  obtain ⟨⟩ := db'
  obtain ⟨rfl, rfl⟩ := issues
  obtain ⟨rfl, rfl⟩ := events
  exact ⟨sound.ids_nodup, sound.ids_le, sound.owned, sound.counted⟩

theorem eq_of_id_eq (sound : Integrity db) {row row' : IssueRow} (mem : row ∈ db.issues.rows)
    (mem' : row' ∈ db.issues.rows) (same : row.id = row'.id) : row = row' :=
  List.inj_on_of_nodup_map sound.ids_nodup mem mem' same

theorem storedEvents_fresh (sound : Integrity db) : storedEvents db (db.issueSeq + 1) = 0 := by
  simp only [storedEvents, Table.count, List.countP_eq_zero, beq_iff_eq]
  intro event mem fresh
  obtain ⟨row, stored, owner⟩ := sound.owned event mem
  have := sound.ids_le row stored
  omega

theorem of_map (sound : Integrity db) (f : IssueRow → IssueRow) (rows : db'.issues.rows = db.issues.rows.map f)
    (ids : ∀ row, (f row).id = row.id) (counts : ∀ row, row.eventCount ≤ (f row).eventCount)
    (seq : db.issueSeq ≤ db'.issueSeq) (events : db'.events = db.events) : Integrity db' where
  ids_nodup := by
    have same : ((fun row => row.id) ∘ f) = fun row => row.id := funext ids
    rw [rows, List.map_map, same]
    exact sound.ids_nodup
  ids_le row mem := by
    rw [rows] at mem
    obtain ⟨old, stored, rfl⟩ := List.mem_map.mp mem
    rw [ids]
    exact (sound.ids_le old stored).trans seq
  owned event mem := by
    rw [events] at mem
    obtain ⟨row, stored, owner⟩ := sound.owned event mem
    refine ⟨f row, ?_, (ids row).trans owner⟩
    rw [rows]
    exact List.mem_map_of_mem stored
  counted row mem := by
    rw [rows] at mem
    obtain ⟨old, stored, rfl⟩ := List.mem_map.mp mem
    have := sound.counted old stored
    have := counts old
    rw [storedEvents, events, ids, ← storedEvents]
    omega

theorem updateIssue (sound : Integrity db) (input : UpsertInput) (status : Option String) :
    Integrity (updateIssue input status db).2 := by
  refine sound.of_map _ rfl ?_ ?_ le_rfl rfl
  · intro row
    split_ifs <;> rfl
  · intro row
    split_ifs <;> simp [bumpIssue]

theorem updateStatus (sound : Integrity db) (issueId : Int) (status : IssueStatus) :
    Integrity (updateStatus issueId status db).2 := by
  refine sound.of_map _ rfl ?_ ?_ le_rfl rfl
  · intro row
    split_ifs <;> rfl
  · intro row
    split_ifs <;> rfl

theorem deleteEvents (sound : Integrity db) (doomed : EventRow → Bool) :
    Integrity { db with events := db.events.delete doomed } where
  ids_nodup := sound.ids_nodup
  ids_le := sound.ids_le
  owned event mem := sound.owned event (Table.mem_delete.mp mem).1
  counted row mem := by
    have fewer : storedEvents { db with events := db.events.delete doomed } row.id ≤ storedEvents db row.id :=
      List.filter_sublist.countP_le
    have := sound.counted row mem
    omega

theorem deleteIssues (sound : Integrity db) (doomed : IssueRow → Bool) :
    Integrity (deleteIssues doomed db).2 where
  ids_nodup := sound.ids_nodup.sublist (List.filter_sublist.map _)
  ids_le row mem := sound.ids_le row (Table.mem_delete.mp mem).1
  owned event mem := by
    obtain ⟨stored, spared⟩ := Table.mem_delete.mp mem
    obtain ⟨row, exists_, owner⟩ := sound.owned event stored
    refine ⟨row, Table.mem_delete.mpr ⟨exists_, ?_⟩, owner⟩
    by_contra dies
    have := List.any_eq_false.mp spared row exists_
    simp_all
  counted row mem := by
    have fewer : storedEvents (Store.deleteIssues doomed db).2 row.id ≤ storedEvents db row.id :=
      List.filter_sublist.countP_le
    have := sound.counted row (Table.mem_delete.mp mem).1
    omega

theorem insertIssue (sound : Integrity db) (input : UpsertInput)
    {issues : Table IssueRow (String × String) IssueRow.key}
    (inserted : db.issues.insert (newIssue input (db.issueSeq + 1)) = some issues) :
    Integrity { db with issues, issueSeq := db.issueSeq + 1 } := by
  have rows := Table.rows_of_insert inserted
  have mem_iff : ∀ row, row ∈ issues.rows ↔ row ∈ db.issues.rows ∨ row = newIssue input (db.issueSeq + 1) := by
    simp [rows]
  refine ⟨?_, ?_, ?_, ?_⟩
  · rw [rows, List.map_append, List.nodup_append]
    refine ⟨sound.ids_nodup, List.nodup_singleton _, ?_⟩
    intro id old id' new
    obtain ⟨row, stored, rfl⟩ := List.mem_map.mp old
    have := sound.ids_le row stored
    simp only [List.map_cons, List.map_nil, List.mem_singleton, newIssue] at new
    omega
  · intro row mem
    rcases (mem_iff row).mp mem with stored | rfl
    · have := sound.ids_le row stored
      simp only
      omega
    · exact le_rfl
  · intro event mem
    obtain ⟨row, stored, owner⟩ := sound.owned event mem
    exact ⟨row, (mem_iff row).mpr (.inl stored), owner⟩
  · intro row mem
    rcases (mem_iff row).mp mem with stored | rfl
    · exact sound.counted row stored
    · have none_yet : storedEvents { db with issues, issueSeq := db.issueSeq + 1 } (db.issueSeq + 1) = 0 :=
        sound.storedEvents_fresh
      simp only [newIssue, none_yet]
      omega

theorem insertEvent (sound : Integrity db) {row : IssueRow} (mem : row ∈ db.issues.rows)
    (room : (storedEvents db row.id : Int) + 1 ≤ row.eventCount) {received : SqliteTime}
    {eventId payload : String} {u : Unit} {db' : Db}
    (done : insertEvent received row.id eventId payload db = .ok (u, db')) : Integrity db' := by
  unfold Store.insertEvent at done
  cases inserted : db.events.insert ⟨db.eventSeq + 1, row.id, eventId, payload, received⟩ with
  | none =>
      rw [inserted] at done
      cases done
      exact ⟨sound.ids_nodup, sound.ids_le, sound.owned, sound.counted⟩
  | some events =>
      rw [inserted] at done
      simp only at done
      split_ifs at done
      cases done
      have rows := Table.rows_of_insert inserted
      refine ⟨sound.ids_nodup, sound.ids_le, ?_, ?_⟩
      · intro event stored
        simp only [rows, List.mem_append, List.mem_singleton] at stored
        rcases stored with old | rfl
        · exact sound.owned event old
        · exact ⟨row, mem, rfl⟩
      · intro other stored
        have bound := sound.counted other stored
        simp only [storedEvents, Table.count, rows, List.countP_append, List.countP_singleton, beq_iff_eq]
          at room bound ⊢
        split_ifs with same
        · obtain rfl := sound.eq_of_id_eq mem stored same
          omega
        · simpa using bound

theorem upsertRow (sound : Integrity db) {input : UpsertInput} {row : IssueRow} {created regressed : Bool}
    (done : upsertRow input db = .ok ((row, created, regressed), db')) :
    Integrity db' ∧ row ∈ db'.issues.rows ∧ (storedEvents db' row.id : Int) + 1 ≤ row.eventCount := by
  cases found : db.issues.find? input.key with
  | none =>
      obtain ⟨issues, inserted, upserted⟩ := upsertRow_of_new found
      rw [upserted] at done
      cases done
      have rows := Table.rows_of_insert inserted
      have none_yet : storedEvents { db with issues, issueSeq := db.issueSeq + 1 } (db.issueSeq + 1) = 0 :=
        sound.storedEvents_fresh
      refine ⟨sound.insertIssue input inserted, by simp [rows], ?_⟩
      simp only [newIssue, none_yet]
      omega
  | some old =>
      rw [upsertRow_of_old found] at done
      cases done
      have bound := sound.counted old (Table.mem_of_find? found)
      have advanced : Integrity { db with issueSeq := db.issueSeq + 1 } :=
        sound.of_map id (List.map_id _).symm (fun _ => rfl) (fun _ => le_rfl)
          (show db.issueSeq ≤ db.issueSeq + 1 by omega) rfl
      refine ⟨advanced.updateIssue input _, ?_, ?_⟩
      · have key : old.key = input.key := Table.key_of_find? found
        refine (Table.mem_update (bumpIssue_key input (reopened old.status))).mpr
          ⟨old, Table.mem_of_find? found, ?_⟩
        simp [key]
      · simp only [bumpIssue]
        have same : storedEvents (Store.updateIssue input (reopened old.status)
          { db with issueSeq := db.issueSeq + 1 }).2 old.id = storedEvents db old.id := rfl
        rw [same]
        omega

theorem upsertIssue_keeps (now : UtcNow) (input : UpsertInput) : (upsertIssue now input).Keeps Integrity := by
  intro db result db' done sound
  obtain ⟨⟨row, created, regressed⟩, db₁, upserted, rest⟩ := bind_eq_ok_iff.mp done
  cases rest
  exact (sound.upsertRow upserted).1

theorem upsertInput_keeps (now : UtcNow) (received : SqliteTime) (input : BatchUpsertInput) :
    (upsertInput now received input).Keeps Integrity := by
  intro db result db' done sound
  obtain ⟨⟨row, created, regressed⟩, db₁, upserted, rest⟩ := bind_eq_ok_iff.mp done
  obtain ⟨u, db₂, inserted, rest⟩ := bind_eq_ok_iff.mp rest
  cases rest
  obtain ⟨counted, mem, room⟩ := sound.upsertRow upserted
  exact counted.insertEvent mem room inserted

theorem renameIssues_keeps (old new : String) : (renameIssues old new).Keeps Integrity := by
  intro db u db' done sound
  unfold renameIssues at done
  split at done
  · cases done
  · rename_i issues renamed
    cases done
    refine sound.of_map _ (Table.rows_of_rekey renamed) ?_ ?_ le_rfl rfl
    · intro row
      split_ifs <;> rfl
    · intro row
      split_ifs <;> rfl

end Integrity

theorem exec_integrity (argon2 : Argon2) (w : World) (c : Call) (db : Db) (sound : Integrity db) :
    Integrity (exec argon2 w c db).2 := by
  have frame := exec_frame argon2 w c db
  cases c
  case upsertIssue input => exact transact_keeps (Integrity.upsertIssue_keeps _ _) sound
  case upsertBatchWithEvents batch =>
    exact transact_keeps (upsertBatchWithEvents_keeps (Integrity.upsertInput_keeps _) _ _) sound
  case setStatus issueId status =>
    exact transact_keeps (setStatus_keeps fun _ sound => sound.updateStatus _ _) sound
  case purgeExcessEventsPerIssue max =>
    exact transact_keeps (purgeExcessEventsPerIssue_keeps fun _ _ sound => sound.deleteEvents _) sound
  case purgeExcessIssuesPerProject max =>
    exact transact_keeps (purgeExcessIssuesPerProject_keeps fun _ _ sound => sound.deleteIssues _) sound
  case purgeEventsOlderThan cutoff =>
    exact transact_keeps (.execute fun _ sound => sound.deleteEvents _) sound
  case deleteProject name =>
    exact transact_keeps (deleteProject_keeps (fun _ _ sound => sound.deleteIssues _)
      fun _ _ sound => sound.of_same ⟨rfl, rfl⟩ ⟨rfl, rfl⟩) sound
  case renameProject old new =>
    exact transact_keeps (renameProject_keeps (fun _ _ _ sound => sound.of_same ⟨rfl, rfl⟩ ⟨rfl, rfl⟩)
      (Integrity.renameIssues_keeps _ _)) sound
  all_goals exact sound.of_same (frame.issues rfl) (frame.events rfl)

/-- After any calls on an empty database: one row for each key of an issue and each event id, every
event in an issue, and no issue with more events than it counted, which is at least one. -/
theorem performAll_integrity (argon2 : Argon2) (calls : List (World × Call)) :
    let db := performAll (exec argon2) calls Db.empty
    (db.issues.rows.map IssueRow.key).Nodup ∧ (db.events.rows.map EventRow.eventId).Nodup ∧
      (∀ event ∈ db.events.rows, ∃ row ∈ db.issues.rows, row.id = event.issueId) ∧
      ∀ row ∈ db.issues.rows,
        ((db.events.rows.filter (·.issueId == row.id)).length : Int) ≤ row.eventCount ∧
          1 ≤ row.eventCount := by
  intro db
  have sound : Integrity db :=
    performAll_invariant (exec argon2) Integrity (exec_integrity argon2) calls Integrity.empty
  refine ⟨db.issues.nodup, db.events.nodup, sound.owned, ?_⟩
  intro row mem
  have counted := sound.counted row mem
  rw [storedEvents, Table.count, List.countP_eq_length_filter] at counted
  exact ⟨counted.2, counted.1⟩

end Errex.Proof.Issues
