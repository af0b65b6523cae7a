import Errex.Proof.Issues.Integrity

/-!
# Issues by id

What the rows of the issues table are under their ids after an upsert or a triage: one row is
written, and the others stay.
-/

namespace Errex.Proof.Issues
open Foundation Transaction Model Store

variable {db db' : Db}

theorem id_of_issueOfId {id : Int} {row : IssueRow} (found : issueOfId id db = some row) : row.id = id := by
  simpa using List.find?_some found

theorem issueOfId_of_mem (sound : Integrity db) {row : IssueRow} (mem : row ∈ db.issues.rows) :
    issueOfId row.id db = some row := by
  obtain ⟨other, found⟩ : ∃ other, issueOfId row.id db = some other :=
    Option.isSome_iff_exists.mp (List.find?_isSome.mpr ⟨row, mem, by simp⟩)
  rw [found, sound.eq_of_id_eq (List.mem_of_find?_eq_some found) mem (id_of_issueOfId found)]

theorem issueOfId_update {p : IssueRow → Bool} {f : IssueRow → IssueRow} (keys : ∀ row, (f row).key = row.key)
    (ids : ∀ row, (f row).id = row.id) (id : Int) :
    issueOfId id { db with issues := db.issues.update p f keys } =
      (issueOfId id db).map fun row => if p row then f row else row := by
  have same : ∀ row, (if p row then f row else row).id = row.id := by
    intro row
    split_ifs
    · exact ids row
    · rfl
  simp only [issueOfId, Table.update, List.find?_map, Function.comp_def, same]

theorem issueOfId_updateStatus (issueId : Int) (status : IssueStatus) (id : Int) :
    issueOfId id (updateStatus issueId status db).2 =
      if issueId = id then (issueOfId id db).map (triageIssue status) else issueOfId id db := by
  refine (issueOfId_update (triageIssue_key status) (fun _ => rfl) id).trans ?_
  cases found : issueOfId id db with
  | none => simp
  | some row =>
      have := id_of_issueOfId found
      simp only [Option.map_some, this, beq_iff_eq, eq_comm (a := id)]
      split_ifs <;> rfl

theorem setStatus_written {now : UtcNow} {issueId : Int} {status : IssueStatus} {issue : Issue}
    (done : setStatus now issueId status db = .ok (issue, db')) :
    db' = (updateStatus issueId status db).2 ∧
      ∃ row, issue = Issue.ofRow now row ∧ row.id = issueId ∧ issueOfId issueId db' = some row := by
  obtain ⟨updated, db₁, executed, rest⟩ := bind_eq_ok_iff.mp done
  cases executed
  split_ifs at rest
  · cases rest
  · obtain ⟨row, db₂, fetched, rest⟩ := bind_eq_ok_iff.mp rest
    cases rest
    unfold Tx.fetchOne fetchOne at fetched
    split at fetched
    · rename_i found
      cases fetched
      exact ⟨rfl, row, rfl, id_of_issueOfId found, found⟩
    · cases fetched

theorem upsertRow_written (sound : Integrity db) {input : UpsertInput} {row : IssueRow} {created regressed : Bool}
    (done : upsertRow input db = .ok ((row, created, regressed), db')) :
    issueOfId row.id db' = some row ∧ (∀ id, row.id ≠ id → issueOfId id db' = issueOfId id db) ∧
      (row.status = "unresolved" ∨ created = false ∧ regressed = false ∧
        ∃ old, issueOfId row.id db = some old ∧ row.status = old.status) := by
  obtain ⟨sound', mem, -⟩ := sound.upsertRow done
  refine ⟨issueOfId_of_mem sound' mem, ?_⟩
  cases found : db.issues.find? input.key with
  | none =>
      obtain ⟨issues, inserted, upserted⟩ := upsertRow_of_new found
      cases upserted.symm.trans done
      refine ⟨fun id other => ?_, .inl rfl⟩
      simp [issueOfId, Table.rows_of_insert inserted, other]
  | some old =>
      cases (upsertRow_of_old found).symm.trans done
      refine ⟨fun id other => (issueOfId_update (bumpIssue_key input _) (fun _ => rfl) id).trans ?_, ?_⟩
      · cases before : issueOfId id db with
        | none => exact congrArg _ before
        | some stored =>
            have apart : stored.key ≠ input.key := by
              intro same
              obtain rfl := Table.eq_of_key_eq (Table.mem_of_find? found) (List.mem_of_find?_eq_some before)
                ((Table.key_of_find? found).trans same.symm)
              exact absurd (id_of_issueOfId before) other
            refine (congrArg _ before).trans ?_
            simp [apart]
      · by_cases resolved : IssueStatus.fromDbStr old.status = .resolved
        · left
          simp [bumpIssue, reopened, resolved]
        · right
          refine ⟨rfl, by simp [reopened, resolved], old, issueOfId_of_mem sound (Table.mem_of_find? found), ?_⟩
          simp [bumpIssue, reopened, resolved]

theorem upsertInput_written (sound : Integrity db) {now : UtcNow} {received : SqliteTime}
    {input : BatchUpsertInput} {result : UpsertResult}
    (done : upsertInput now received input db = .ok (result, db')) :
    ∃ row, result.issue = Issue.ofRow now row ∧ issueOfId row.id db' = some row ∧
      (∀ id, row.id ≠ id → issueOfId id db' = issueOfId id db) ∧
      (row.status = "unresolved" ∨ result.created = false ∧ result.regressed = false ∧
        ∃ old, issueOfId row.id db = some old ∧ row.status = old.status) := by
  obtain ⟨⟨row, created, regressed⟩, db₁, upserted, rest⟩ := bind_eq_ok_iff.mp done
  obtain ⟨u, db₂, inserted, rest⟩ := bind_eq_ok_iff.mp rest
  cases rest
  obtain ⟨-, mem, -⟩ := sound.upsertRow upserted
  obtain ⟨db₃, stored, issues⟩ := insertEvent_ok (Table.find?_of_mem mem) received input.eventId input.payload
  cases stored.symm.trans inserted
  have same : ∀ id, issueOfId id db' = issueOfId id db₁ := fun id => by rw [issueOfId, issueOfId, issues]
  obtain ⟨written, others, status⟩ := upsertRow_written sound upserted
  exact ⟨row, rfl, (same row.id).trans written, fun id other => (same id).trans (others id other), status⟩

end Errex.Proof.Issues
