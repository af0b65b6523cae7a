import Errex.Model.Store.Calls

/-!
# What an upsert does

The first input of a key inserts its row, and every later one updates it; either way the row is the
one found under the key afterwards.
-/

namespace Errex.Proof.Issues
open Foundation Transaction Model Store

def reopened (status : String) : Option String :=
  if IssueStatus.fromDbStr status = .resolved then some "unresolved" else none

variable {input : UpsertInput} {db : Db}

theorem upsertRow_of_new (absent : db.issues.find? input.key = none) :
    ∃ issues, db.issues.insert (newIssue input (db.issueSeq + 1)) = some issues ∧
      upsertRow input db = .ok ((newIssue input (db.issueSeq + 1), true, false),
        { db with issues, issueSeq := db.issueSeq + 1 }) := by
  have key : (newIssue input (db.issueSeq + 1)).key = input.key := rfl
  cases inserted : db.issues.insert (newIssue input (db.issueSeq + 1)) with
  | none =>
      obtain ⟨other, found⟩ := Table.insert_eq_none_iff.mp inserted
      simp [key, absent] at found
  | some issues =>
      refine ⟨issues, rfl, ?_⟩
      have found : issueRow input { db with issues, issueSeq := db.issueSeq + 1 } =
          some (newIssue input (db.issueSeq + 1)) := by
        rw [issueRow, Table.find?_of_insert inserted, if_pos key]
      simp only [upsertRow, bind_run, execute_run, insertIssue, inserted, Except.bind, beq_self_eq_true,
        Bool.not_true, Bool.false_eq_true, if_false, pure_run, Tx.fetchOne, fetchOne_run found]

theorem upsertRow_of_old {old : IssueRow} (found : db.issues.find? input.key = some old) :
    upsertRow input db = .ok ((bumpIssue input (reopened old.status) old, false,
        (reopened old.status).isSome),
      (updateIssue input (reopened old.status) { db with issueSeq := db.issueSeq + 1 }).2) := by
  have inserted : db.issues.insert (newIssue input (db.issueSeq + 1)) = none :=
    Table.insert_eq_none_iff.mpr ⟨old, found⟩
  have before : issueRow input { db with issueSeq := db.issueSeq + 1 } = some old := found
  have after : ∀ status, issueRow input (updateIssue input status { db with issueSeq := db.issueSeq + 1 }).2 =
      some (bumpIssue input status old) := by
    intro status
    have key : old.key = input.key := Table.key_of_find? found
    rw [issueRow, updateIssue, Table.find?_update, found]
    simp [key]
  simp only [upsertRow, bind_run, execute_run, insertIssue, inserted, Except.bind, Tx.fetchOne]
  rw [if_pos (by decide), bind_run, fetchOne_run before]
  by_cases resolved : IssueStatus.fromDbStr old.status = .resolved
  · simp only [resolved, reopened, bind_run, Except.bind, execute_run, if_true, fetchOne_run (after _),
      pure_run]
    rfl
  · simp only [resolved, reopened, bind_run, Except.bind, execute_run, if_false, fetchOne_run (after _),
      pure_run]
    rfl

def upsertedRow (input : UpsertInput) (db : Db) : IssueRow :=
  match db.issues.find? input.key with
  | none => newIssue input (db.issueSeq + 1)
  | some old => bumpIssue input (reopened old.status) old

theorem upsertRow_spec (input : UpsertInput) (db : Db) :
    ∃ db', upsertRow input db = .ok ((upsertedRow input db, (db.issues.find? input.key).isNone,
        (db.issues.find? input.key).any fun old => (reopened old.status).isSome), db') ∧
      ∀ key, db'.issues.find? key =
        if input.key = key then some (upsertedRow input db) else db.issues.find? key := by
  cases found : db.issues.find? input.key with
  | none =>
      obtain ⟨issues, inserted, upserted⟩ := upsertRow_of_new found
      have row : upsertedRow input db = newIssue input (db.issueSeq + 1) := by simp [upsertedRow, found]
      rw [row]
      exact ⟨_, upserted, fun key => Table.find?_of_insert inserted⟩
  | some old =>
      have row : upsertedRow input db = bumpIssue input (reopened old.status) old := by
        simp [upsertedRow, found]
      rw [row]
      refine ⟨_, upsertRow_of_old found, fun key => ?_⟩
      refine (Table.find?_update_key (bumpIssue_key input _)).trans ?_
      split_ifs with same
      · rw [← same, found, Option.map_some]
      · rfl

theorem insertEvent_ok {key : String × String} {row : IssueRow} (found : db.issues.find? key = some row)
    (received : SqliteTime) (eventId payload : String) :
    ∃ db', insertEvent received row.id eventId payload db = .ok ((), db') ∧ db'.issues = db.issues := by
  have owner : db.issues.rows.any (·.id == row.id) = true :=
    List.any_eq_true.mpr ⟨row, Table.mem_of_find? found, beq_self_eq_true _⟩
  unfold insertEvent
  cases db.events.insert ⟨db.eventSeq + 1, row.id, eventId, payload, received⟩ with
  | none => exact ⟨_, rfl, rfl⟩
  | some events => exact ⟨{ db with events, eventSeq := db.eventSeq + 1 }, by simp [owner], rfl⟩

end Errex.Proof.Issues
