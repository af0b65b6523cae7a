import Errex.Proof.Frame

/-!
# What the operations on accounts do

A lemma for each operation says how it changes the rows found under a user name, or what its
success says about them.
-/

namespace Errex.Proof.Accounts
open Foundation Model Store

theorem execute_check_ok {statement : Db → Nat × Db} {error : DaemonError} {db db' : Db} {done : Unit}
    (ok : (do let updated ← Transaction.execute statement
              if updated = 0 then Transaction.fail error : Tx Unit) db = .ok (done, db')) :
    (statement db).1 ≠ 0 ∧ db' = (statement db).2 := by
  simp only [Transaction.bind_run, Transaction.execute_run, Except.bind] at ok
  split_ifs at ok with none_updated
  · cases ok
  · cases ok
    exact ⟨none_updated, rfl⟩

theorem execute_check_run {statement : Db → Nat × Db} {error : DaemonError} {db : Db} (updated : (statement db).1 ≠ 0) :
    (do let updated ← Transaction.execute statement
        if updated = 0 then Transaction.fail error : Tx Unit) db = .ok ((), (statement db).2) := by
  rw [Transaction.bind_run, Transaction.execute_run, Except.bind, if_neg updated]
  rfl

theorem count_username_ne_zero {username : String} {db : Db} {row : UserRow} (found : db.users.find? username = some row) :
    db.users.count (·.username == username) ≠ 0 := by
  refine (List.countP_pos_iff.mpr ⟨row, Table.mem_of_find? found, ?_⟩).ne'
  exact beq_iff_eq.mpr (Table.key_of_find? found)

theorem find?_updateUser (username : String) (change : UserChange) (db : Db) (v : String) :
    (updateUser username change db).2.users.find? v =
      if username = v then (db.users.find? v).map change.apply else db.users.find? v :=
  Table.find?_update_key change.apply_username

theorem find?_deleteUserRow (username : String) (db : Db) (v : String) :
    (deleteUserRow username db).2.users.find? v = if username = v then none else db.users.find? v := by
  refine Table.find?_delete.trans ?_
  cases found : db.users.find? v with
  | none => simp
  | some row =>
      obtain rfl : row.username = v := Table.key_of_find? found
      simp [Option.filter_some, eq_comm (a := username)]

theorem updateUser_found {username : String} {change : UserChange} {db : Db}
    (updated : (updateUser username change db).1 ≠ 0) :
    ((updateUser username change db).2.users.find? username).isSome := by
  obtain ⟨row, mem, same⟩ := List.countP_pos_iff.mp (Nat.pos_of_ne_zero updated)
  obtain rfl : row.username = username := by simpa using same
  have found : db.users.find? row.username = some row := Table.find?_of_mem mem
  rw [find?_updateUser, if_pos rfl, found]
  rfl

theorem setUserDeactivated_run {now : UtcNow} {username : String} {deactivated : Bool} {db : Db} {row : UserRow}
    (found : db.users.find? username = some row) :
    let change : UserChange := .deactivatedAt (if deactivated then some now.instant.toRfc3339 else none)
    setUserDeactivated now username deactivated db = .ok ((),
      if deactivated then (deleteSessions (·.username == username) (updateUser username change db).2).2
        else (updateUser username change db).2) := by
  have updated : ∀ change, (updateUser username change db).1 ≠ 0 := fun _ => count_username_ne_zero found
  simp only [setUserDeactivated, Transaction.bind_run, Transaction.execute_run, Except.bind]
  cases deactivated <;> rw [if_neg (updated _)] <;> rfl

theorem setUserDeactivated_ok {now : UtcNow} {username : String} {deactivated : Bool} {db db' : Db}
    {done : Unit} (ok : setUserDeactivated now username deactivated db = .ok (done, db')) :
    let change : UserChange := .deactivatedAt (if deactivated then some now.instant.toRfc3339 else none)
    (updateUser username change db).1 ≠ 0 ∧
      db' = if deactivated then (deleteSessions (·.username == username) (updateUser username change db).2).2
        else (updateUser username change db).2 := by
  simp only [setUserDeactivated, Transaction.bind_run, Transaction.execute_run, Except.bind] at ok
  cases deactivated <;> simp only [Bool.false_eq_true, if_false, if_true] at ok ⊢ <;>
    split_ifs at ok with none_updated <;> cases ok
  · exact ⟨none_updated, rfl⟩
  · exact ⟨none_updated, rfl⟩

theorem sessionForId_found {now : UtcNow} {id : String} {db db' : Db} {answer : Session × Role × Bool}
    (ok : sessionForId now id db = .ok (some answer, db')) :
    ∃ row user, db.sessions.find? id = some row ∧ db.users.find? row.username = some user := by
  simp only [sessionForId, Transaction.read_run, Except.ok.injEq, Prod.mk.injEq] at ok
  obtain ⟨row, stored, rest⟩ := Option.bind_eq_some_iff.mp ok.1
  obtain ⟨user, found, -⟩ := Option.bind_eq_some_iff.mp rest
  exact ⟨row, user, stored, found⟩

end Errex.Proof.Accounts
