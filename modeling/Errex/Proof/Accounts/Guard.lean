import Errex.Proof.Accounts.LastAdmin

/-!
# The guard of the last active admin

A PATCH or DELETE that nothing interrupts is refused or applied in full. It is refused exactly where it would leave no
active admin, but for the demotion of a deactivated admin.
-/

namespace Errex.Proof.Accounts.Guard
open Foundation Model Store Auth Admin Process

variable {argon2 : Argon2} {db : Db} {u : String}

def SignedIn (headers : HeaderMap) (db : Db) : Prop :=
  ∃ id row user, extractSessionId headers = some id ∧ db.sessions.find? id = some row ∧
    db.users.find? row.username = some user ∧ user.role = .admin

def seen (id text : String) (db : Db) : Db :=
  { db with sessions := db.sessions.update (·.id == id) (seenAt text) (seenAt_id text) }

theorem alone_ask {α : Type} (choices : Nat → World) (c : Call) (f : c.Reply → Handler α) :
    (ask c >>= f).alone (exec argon2) choices db =
      (f (exec argon2 (choices 0) c db).1).alone (exec argon2) (fun n => choices (n + 1)) (exec argon2 (choices 0) c db).2 :=
  rfl

theorem alone_answer {α : Type} {choices : Nat → World} {c : Call} {reply : c.Reply} {after : Db}
    (answer : exec argon2 (choices 0) c db = (reply, after)) (f : c.Reply → Handler α) :
    (ask c >>= f).alone (exec argon2) choices db = (f reply).alone (exec argon2) (fun n => choices (n + 1)) after := by
  rw [alone_ask, answer]

theorem checkAdmin_alone {choices : Nat → World} (calm : ∀ n, (choices n).fault = none) {headers : HeaderMap}
    (signedIn : SignedIn headers db) : ∃ id text, ∀ rest : Handler Response,
      (checkAdmin headers rest).alone (exec argon2) choices db =
      rest.alone (exec argon2) (fun n => choices (n + 2)) (seen id text db) := by
  obtain ⟨id, row, user, cookie, stored, found, admin⟩ := signedIn
  obtain rfl : row.id = id := Table.key_of_find? stored
  refine ⟨row.id, (choices 1).now.instant.toRfc3339, fun rest => ?_⟩
  have read : sessionForId (choices 0).now row.id db = .ok (some (⟨row.id, row.username,
      parseOrNow (choices 0).now row.createdAt, parseOrNow (choices 0).now row.lastSeenAt, row.ip, row.userAgent⟩,
      user.role, user.deactivatedAt.isSome), db) := by
    simp [sessionForId, stored, found]
  have session : exec argon2 (choices 0) (.sessionForId row.id) db = (.ok (some (_, user.role, _)), db) :=
    transact_of_ok (calm 0) read
  have touch : exec argon2 (choices 1) (.touchSession row.id) db =
      ((), seen row.id (choices 1).now.instant.toRfc3339 db) :=
    congrArg (fun done : Except DaemonError Unit × Db => ((), done.2)) (transact_of_ok (calm 1) rfl)
  rw [checkAdmin, requireAdmin, requireAuth, cookie]
  simp only [Process.bind_assoc, alone_ask, session, admin]
  exact congrArg (fun after : Unit × Db => rest.alone (exec argon2) (fun n => choices (n + 2)) after.2) touch

section Calls

variable {α : Type} {choices : Nat → World} {row : UserRow}

theorem getUser_alone (argon2 : Argon2) (calm : (choices 0).fault = none) (found : db.users.find? u = some row)
    (f : Option User → Handler α) :
    (do f (← ofExcept (← ask (.getUser u)))).alone (exec argon2) choices db =
      (f (some (User.ofRow (choices 0).now row))).alone (exec argon2) (fun n => choices (n + 1)) db := by
  have read : getUser (choices 0).now u db = .ok (some (User.ofRow (choices 0).now row), db) := by simp [getUser, found]
  have answer : exec argon2 (choices 0) (.getUser u) db = (.ok _, db) := transact_of_ok calm read
  exact alone_answer answer _

theorem countActiveAdmins_alone (argon2 : Argon2) (calm : (choices 0).fault = none) (f : Nat → Handler α) :
    (do f (← ofExcept (← ask .countActiveAdmins))).alone (exec argon2) choices db =
      (f (db.users.count isActiveAdmin)).alone (exec argon2) (fun n => choices (n + 1)) db := by
  have read : countActiveAdmins db = .ok (db.users.count isActiveAdmin, db) := rfl
  have answer : exec argon2 (choices 0) .countActiveAdmins db = (.ok _, db) := transact_of_ok calm read
  exact alone_answer answer _

theorem setUserPassword_alone (calm : (choices 0).fault = none) (found : db.users.find? u = some row) (hash : String)
    (f : Unit → Handler α) :
    (do f (← ofExcept (← ask (.setUserPassword u hash)))).alone (exec argon2) choices db =
      (f ()).alone (exec argon2) (fun n => choices (n + 1)) (updateUser u (.passwordHash hash) db).2 := by
  have write : setUserPassword u hash db = .ok _ := execute_check_run (count_username_ne_zero found)
  have answer : exec argon2 (choices 0) (.setUserPassword u hash) db = (.ok (), _) := transact_of_ok calm write
  exact alone_answer answer _

theorem setUserRole_alone (calm : (choices 0).fault = none) (found : db.users.find? u = some row) (role : Role)
    (f : Unit → Handler α) :
    (do f (← ofExcept (← ask (.setUserRole u role)))).alone (exec argon2) choices db =
      (f ()).alone (exec argon2) (fun n => choices (n + 1)) (updateUser u (.role role) db).2 := by
  have write : setUserRole u role db = .ok _ := execute_check_run (count_username_ne_zero found)
  have answer : exec argon2 (choices 0) (.setUserRole u role) db = (.ok (), _) := transact_of_ok calm write
  exact alone_answer answer _

def deactivationText (instant : String) (deactivated : Bool) : Option String := if deactivated then some instant else none

theorem setUserDeactivated_alone (calm : (choices 0).fault = none) (found : db.users.find? u = some row)
    (deactivated : Bool) (f : Unit → Handler α) :
    let change : UserChange := .deactivatedAt (deactivationText (choices 0).now.instant.toRfc3339 deactivated)
    (do f (← ofExcept (← ask (.setUserDeactivated u deactivated)))).alone (exec argon2) choices db =
      (f ()).alone (exec argon2) (fun n => choices (n + 1))
        (if deactivated then (deleteSessions (·.username == u) (updateUser u change db).2).2
          else (updateUser u change db).2) := by
  intro change
  have answer : exec argon2 (choices 0) (.setUserDeactivated u deactivated) db = (.ok (), _) :=
    transact_of_ok calm (setUserDeactivated_run found)
  exact alone_answer answer _

theorem deleteUser_alone (calm : (choices 0).fault = none) (found : db.users.find? u = some row) (f : Unit → Handler α) :
    (do f (← ofExcept (← ask (.deleteUser u)))).alone (exec argon2) choices db =
      (f ()).alone (exec argon2) (fun n => choices (n + 1)) (deleteUserRow u db).2 := by
  have write : deleteUser u db = .ok _ := execute_check_run (count_username_ne_zero found)
  have answer : exec argon2 (choices 0) (.deleteUser u) db = (.ok (), _) := transact_of_ok calm write
  exact alone_answer answer _

end Calls

inductive Change where
  | patch (body : PatchUserBody)
  | delete

def Change.handle (headers : HeaderMap) (u : String) : Change → Handler Response
  | .patch body => adminPatchUser u headers (some body)
  | .delete => adminDeleteUser u headers

def patchRow (hash instant : String) (body : PatchUserBody) (row : UserRow) : UserRow :=
  { row with
    passwordHash := if body.password.isSome then hash else row.passwordHash
    role := body.role.getD row.role
    deactivatedAt := (body.deactivated.map (deactivationText instant)).getD row.deactivatedAt }

theorem patchRow_username (hash instant : String) (body : PatchUserBody) (row : UserRow) :
    (patchRow hash instant body row).username = row.username := rfl

def Change.applied (hash instant u : String) (db : Db) : Change → Db
  | .patch body =>
      { db with
        users := db.users.update (·.username == u) (patchRow hash instant body) (patchRow_username hash instant body)
        sessions := if body.deactivated = some true then db.sessions.delete (·.username == u) else db.sessions }
  | .delete =>
      { db with
        users := db.users.delete (·.username == u)
        sessions := db.sessions.delete (·.username == u) }

def Change.Valid (argon2 : Argon2) : Change → Prop
  | .patch body => ∀ p ∈ body.password, validatePasswordStrength p = .ok () ∧
      ∀ salt, ∃ hash, argon2.hashPassword salt p = .ok hash
  | .delete => True

section Writes

variable {choices : Nat → World}

def written (u : String) (change : Option UserChange) (db : Db) : Db :=
  change.elim db fun change => (updateUser u change db).2

theorem written_found {row : UserRow} (found : db.users.find? u = some row) (change : Option UserChange) :
    ∃ row, (written u change db).users.find? u = some row := by
  cases change with
  | none => exact ⟨row, found⟩
  | some change => exact ⟨change.apply row, by rw [written, Option.elim, find?_updateUser, if_pos rfl, found, Option.map_some]⟩

theorem passwordWrite_alone (calm : ∀ n, (choices n).fault = none) {row : UserRow} (found : db.users.find? u = some row)
    {password : Option String} (hashes : ∀ p ∈ password, ∀ salt, ∃ hash, argon2.hashPassword salt p = .ok hash)
    (rest : Handler Response) :
    ∃ k hash, (∀ p ∈ password, ∃ salt, argon2.hashPassword salt p = .ok hash) ∧
      (do ifSome password fun p => do
            let hash ← ofExcept (← ask (.hashPassword p))
            ofExcept (← ask (.setUserPassword u hash))
          rest).alone (exec argon2) choices db =
        rest.alone (exec argon2) (fun n => choices (n + k)) (written u (password.map fun _ => .passwordHash hash) db) := by
  cases password with
  | none => exact ⟨0, "", nofun, rfl⟩
  | some p =>
      obtain ⟨hash, hashed⟩ := hashes p rfl (choices 0).uuid
      have answer : exec argon2 (choices 0) (.hashPassword p) db = (.ok hash, db) := by
        change (hashPassword argon2 (choices 0) p, db) = _
        rw [hashPassword, hashed]
        rfl
      refine ⟨2, hash, fun p' same => ⟨(choices 0).uuid, by rwa [← Option.some.inj same]⟩, ?_⟩
      simp only [ifSome, Process.bind_assoc, alone_ask, answer]
      exact setUserPassword_alone (calm 1) found hash fun _ => rest

theorem roleWrite_alone (argon2 : Argon2) (calm : ∀ n, (choices n).fault = none) {row : UserRow} (found : db.users.find? u = some row)
    (role : Option Role) (rest : Handler Response) :
    ∃ k, (do ifSome role fun role => do ofExcept (← ask (.setUserRole u role))
             rest).alone (exec argon2) choices db =
        rest.alone (exec argon2) (fun n => choices (n + k)) (written u (role.map .role) db) := by
  cases role with
  | none => exact ⟨0, rfl⟩
  | some role =>
      refine ⟨1, ?_⟩
      simp only [ifSome, Process.bind_assoc]
      exact setUserRole_alone (calm 0) found role fun _ => rest

theorem deactivation_alone (argon2 : Argon2) (calm : ∀ n, (choices n).fault = none) {row : UserRow} (found : db.users.find? u = some row)
    (deactivated : Option Bool) (rest : Handler Response) :
    ∃ k, (do ifSome deactivated fun deact => do ofExcept (← ask (.setUserDeactivated u deact))
             rest).alone (exec argon2) choices db =
        rest.alone (exec argon2) (fun n => choices (n + k))
          (let instant := (choices 0).now.instant.toRfc3339
           let db' := written u (deactivated.map fun b => .deactivatedAt (deactivationText instant b)) db
           if deactivated = some true then (deleteSessions (·.username == u) db').2 else db') := by
  cases deactivated with
  | none => exact ⟨0, rfl⟩
  | some deactivated =>
      refine ⟨1, ?_⟩
      simp only [ifSome, Process.bind_assoc]
      rw [setUserDeactivated_alone (calm 0) found deactivated fun _ => rest]
      cases deactivated <;> rfl

theorem written_eq_applied (u hash instant : String) (body : PatchUserBody) (db : Db) :
    (let db' := written u (body.deactivated.map fun b => .deactivatedAt (deactivationText instant b))
      (written u (body.role.map .role) (written u (body.password.map fun _ => .passwordHash hash) db))
     if body.deactivated = some true then (deleteSessions (·.username == u) db').2 else db') =
      (Change.patch body).applied hash instant u db := by
  obtain ⟨password, role, deactivated⟩ := body
  have kept : db.users.update (·.username == u) (patchRow hash instant ⟨none, none, none⟩)
      (patchRow_username hash instant ⟨none, none, none⟩) = db.users := Table.update_id _
  cases password <;> cases role <;> rcases deactivated with _ | _ | _ <;>
    simp [written, updateUser, Change.applied, deleteSessions, Table.update_update, UserChange.apply_username, kept] <;> rfl

theorem applied_found {row : UserRow} (found : db.users.find? u = some row) (hash instant : String) (body : PatchUserBody) :
    ((Change.patch body).applied hash instant u db).users.find? u = some (patchRow hash instant body row) := by
  refine (Table.find?_update_key (patchRow_username hash instant body)).trans ?_
  rw [if_pos rfl, found, Option.map_some]

theorem applyPatch_alone (calm : ∀ n, (choices n).fault = none) {row : UserRow} (found : db.users.find? u = some row)
    {body : PatchUserBody} (hashes : ∀ p ∈ body.password, ∀ salt, ∃ hash, argon2.hashPassword salt p = .ok hash) :
    ∃ hash n user, (∀ p ∈ body.password, ∃ salt, argon2.hashPassword salt p = .ok hash) ∧
      (applyPatch u body).alone (exec argon2) choices db =
        (.ok (.json 200 (.user user)), (Change.patch body).applied hash (choices n).now.instant.toRfc3339 u db) := by
  obtain ⟨k, hash, hashed, first⟩ := passwordWrite_alone calm found hashes (do
    ifSome body.role fun role => do ofExcept (← ask (.setUserRole u role))
    ifSome body.deactivated fun deact => do ofExcept (← ask (.setUserDeactivated u deact))
    let updated ← ofOption (← ofExcept (← ask (.getUser u)))
    return .json 200 (.user updated))
  obtain ⟨row₁, found₁⟩ := written_found found (body.password.map fun _ => .passwordHash hash)
  obtain ⟨l, second⟩ := roleWrite_alone argon2 (fun n => calm (n + k)) found₁ body.role (do
    ifSome body.deactivated fun deact => do ofExcept (← ask (.setUserDeactivated u deact))
    let updated ← ofOption (← ofExcept (← ask (.getUser u)))
    return .json 200 (.user updated))
  obtain ⟨row₂, found₂⟩ := written_found found₁ (body.role.map .role)
  obtain ⟨m, third⟩ := deactivation_alone argon2 (fun n => calm (n + l + k)) found₂ body.deactivated (do
    let updated ← ofOption (← ofExcept (← ask (.getUser u)))
    return .json 200 (.user updated))
  refine ⟨hash, 0 + l + k, ?_⟩
  rw [written_eq_applied] at third
  have found₃ := applied_found found hash (choices (0 + l + k)).now.instant.toRfc3339 body
  have last := @getUser_alone _ u _ (fun n => choices (n + m + l + k)) _ argon2 (calm _) found₃ fun updated => do
    let updated ← ofOption updated
    return Response.json 200 (.user updated)
  exact ⟨_, hashed, first.trans (second.trans (third.trans last))⟩

end Writes

theorem deleteUserRow_eq_applied {row : UserRow} (found : db.users.find? u = some row) :
    (deleteUserRow u db).2 = Change.delete.applied "" "" u db := by
  have owner : ∀ session : SessionRow, (db.users.rows.any fun row => row.username == u && row.username == session.username) =
      (session.username == u) := by
    intro session
    rw [Bool.eq_iff_iff, List.any_eq_true, beq_iff_eq]
    constructor
    · rintro ⟨row, -, both⟩
      simp only [Bool.and_eq_true, beq_iff_eq] at both
      exact both.2.symm.trans both.1
    · intro same
      have named : row.username = u := Table.key_of_find? found
      exact ⟨row, Table.mem_of_find? found, by simp [same, named]⟩
  simp only [deleteUserRow, Change.applied, owner]

def Change.success : Change → Nat
  | .patch _ => 200
  | .delete => 204

def Refused (out : Outcome DaemonError Response × Db) : Prop := ∃ response, out.1 = .ok response ∧ response.status = 409

def Applied (argon2 : Argon2) (choices : Nat → World) (u : String) (db : Db) (change : Change)
    (out : Outcome DaemonError Response × Db) : Prop :=
  (∃ response, out.1 = .ok response ∧ response.status = change.success) ∧
    ∃ hash n id text, (∀ body, change = .patch body → ∀ p ∈ body.password, ∃ salt, argon2.hashPassword salt p = .ok hash) ∧
      out.2 = change.applied hash (choices n).now.instant.toRfc3339 u (seen id text db)

def Change.LocksOut (u : String) (db : Db) (change : Change) : Prop :=
  ∀ hash instant, (change.applied hash instant u db).users.count isActiveAdmin = 0

/-- The guard takes the role of a deactivated admin for that of an active one. -/
def Change.Misjudged (change : Change) (row : UserRow) (db : Db) : Prop :=
  ∃ body, change = .patch body ∧ row.role = .admin ∧ row.deactivatedAt.isSome ∧ body.role = some .viewer ∧
    db.users.count isActiveAdmin = 1

def Change.guarded (user : User) : Change → Bool
  | .patch body => demoting body user || deactivating body user
  | .delete => user.role == .admin && user.deactivatedAt.isNone

theorem guarded_ofRow (change : Change) (now now' : UtcNow) (row : UserRow) :
    change.guarded (User.ofRow now row) = change.guarded (User.ofRow now' row) := by
  cases change <;> simp [Change.guarded, demoting, deactivating, User.ofRow]

theorem handle_alone {choices : Nat → World} (calm : ∀ n, (choices n).fault = none) {headers : HeaderMap}
    (signedIn : SignedIn headers db) {row : UserRow} (found : db.users.find? u = some row) {change : Change}
    (valid : change.Valid argon2) :
    let out := (change.handle headers u).alone (exec argon2) choices db
    if change.guarded (User.ofRow noon row) ∧ db.users.count isActiveAdmin ≤ 1 then Refused out
    else Applied argon2 choices u db change out := by
  obtain ⟨id, text, gate⟩ := @checkAdmin_alone argon2 db choices calm headers signedIn
  have found : (seen id text db).users.find? u = some row := found
  intro out
  cases change with
  | delete =>
      have start : out = _ := gate _
      have finish : ∀ k, Applied argon2 choices u db .delete ((do
          ofExcept (← ask (.deleteUser u))
          return Response.mk 204 [] .empty : Handler Response).alone (exec argon2) (fun n => choices (n + k))
            (seen id text db)) := by
        intro k
        rw [@deleteUser_alone argon2 _ u _ (fun n => choices (n + k)) _ (calm _) found, deleteUserRow_eq_applied found]
        exact ⟨⟨_, rfl, rfl⟩, "", k, id, text, nofun, rfl⟩
      rw [@getUser_alone _ u _ (fun n => choices (n + 2)) _ argon2 (calm 2) found] at start
      rw [guarded_ofRow .delete noon (choices (0 + 2)).now row, Change.guarded]
      dsimp only at start
      split_ifs at start with guard
      · rw [@countActiveAdmins_alone _ _ (fun n => choices (n + 3)) argon2 (calm 3)] at start
        split_ifs at start with few
        · rw [if_pos ⟨guard, few⟩, start]
          exact ⟨_, rfl, rfl⟩
        · rw [if_neg fun h => few h.2, start]
          exact finish 4
      · rw [if_neg fun h => guard h.1, start]
        exact finish 3
  | patch body =>
      have start : out = _ := gate _
      rw [withBody, @getUser_alone _ u _ (fun n => choices (n + 2)) _ argon2 (calm 2) found, if_neg (by simp)] at start
      split at start
      · rename_i why refused
        obtain ⟨p, given, weak⟩ := Option.map_eq_some_iff.mp refused
        rw [(valid p given).1] at weak
        cases weak
      rw [@getUser_alone _ u _ (fun n => choices (n + 3)) _ argon2 (calm 3) found, ofOption_some, ret_bind] at start
      have finish : ∀ k, Applied argon2 choices u db (.patch body)
          ((applyPatch u body).alone (exec argon2) (fun n => choices (n + k)) (seen id text db)) := by
        intro k
        obtain ⟨hash, n, user, hashed, applied⟩ := applyPatch_alone (fun n => calm (n + k)) found fun p mem => (valid p mem).2
        rw [applied]
        refine ⟨⟨_, rfl, rfl⟩, hash, n + k, id, text, ?_, rfl⟩
        rintro body' ⟨⟩
        exact hashed
      rw [guarded_ofRow (.patch body) noon (choices (0 + 3)).now row, Change.guarded]
      split_ifs at start with guard
      · rw [@countActiveAdmins_alone _ _ (fun n => choices (n + 4)) argon2 (calm 4)] at start
        split_ifs at start with few
        · rw [if_pos ⟨guard, few⟩, start]
          exact ⟨_, rfl, rfl⟩
        · rw [if_neg fun h => few h.2, start]
          exact finish 5
      · rw [if_neg fun h => guard h.1, start]
        exact finish 4

theorem locksOut_iff {row : UserRow} (found : db.users.find? u = some row) (change : Change) :
    change.LocksOut u db ↔ (db.users.delete (·.username == u)).count isActiveAdmin = 0 ∧
      ∀ body, change = .patch body → isActiveAdmin (patchRow "" "" body row) = false := by
  cases change with
  | delete =>
      have count : ∀ hash instant, (Change.delete.applied hash instant u db).users =
          db.users.delete (·.username == u) := fun _ _ => rfl
      simp [Change.LocksOut, count]
  | patch body =>
      have count : ∀ hash instant, ((Change.patch body).applied hash instant u db).users.count isActiveAdmin =
          (db.users.delete (·.username == u)).count isActiveAdmin +
            if isActiveAdmin (patchRow hash instant body row) then 1 else 0 := fun hash instant =>
        Table.count_update_key found (patchRow_username hash instant body) isActiveAdmin
      have any : ∀ hash instant, isActiveAdmin (patchRow hash instant body row) = isActiveAdmin (patchRow "" "" body row) := by
        intro hash instant
        rcases body with ⟨password, role, _ | _ | _⟩ <;> rfl
      simp only [Change.LocksOut, count, any, Change.patch.injEq, forall_eq']
      cases isActiveAdmin (patchRow "" "" body row) <;> simp

theorem guarded_iff_locksOut {row : UserRow} (found : db.users.find? u = some row)
    (active : 0 < db.users.count isActiveAdmin) (change : Change) :
    (change.guarded (User.ofRow noon row) ∧ db.users.count isActiveAdmin ≤ 1 ↔ change.LocksOut u db) ↔
      ¬ change.Misjudged row db := by
  have count := Table.count_eq found isActiveAdmin
  rw [locksOut_iff found]
  change db.users.count isActiveAdmin = (db.users.delete (·.username == u)).count isActiveAdmin + _ at count
  generalize (db.users.delete (·.username == u)).count isActiveAdmin = others at count ⊢
  obtain ⟨username, passwordHash, role, createdAt, lastLoginAt, lastLoginIp, deactivatedAt⟩ := row
  cases change with
  | delete =>
      cases role <;> cases deactivatedAt <;> simp [Change.guarded, Change.Misjudged, User.ofRow, isActiveAdmin] at count ⊢ <;>
        omega
  | patch body =>
      obtain ⟨password, newRole, deactivated⟩ := body
      cases role <;> cases deactivatedAt <;> rcases newRole with _ | _ | _ <;> rcases deactivated with _ | _ | _ <;>
        simp [Change.guarded, Change.Misjudged, demoting, deactivating, User.ofRow, isActiveAdmin, patchRow,
          deactivationText] at count ⊢ <;> omega

/-- A change is refused where it would leave no active admin, and otherwise applied in full. -/
def Exact (argon2 : Argon2) (choices : Nat → World) (u : String) (db : Db) (change : Change)
    (out : Outcome DaemonError Response × Db) : Prop :=
  (Refused out ↔ change.LocksOut u db) ∧ (¬ Refused out → Applied argon2 choices u db change out)

theorem Applied.not_refused {choices : Nat → World} {change : Change} {out : Outcome DaemonError Response × Db}
    (applied : Applied argon2 choices u db change out) : ¬ Refused out := by
  rintro ⟨response, answer, refused⟩
  obtain ⟨⟨response', answer', success⟩, -⟩ := applied
  obtain rfl := Outcome.ok.inj (answer.symm.trans answer')
  rw [refused] at success
  cases change <;> cases success

/-- A valid request of an admin that nothing interrupts is refused exactly where it would leave no active admin, but for
the demotion of a deactivated admin next to a single active one. -/
theorem handle_exact_iff {choices : Nat → World} (calm : ∀ n, (choices n).fault = none) {headers : HeaderMap}
    (signedIn : SignedIn headers db) {row : UserRow} (found : db.users.find? u = some row)
    (active : 0 < db.users.count isActiveAdmin) {change : Change} (valid : change.Valid argon2) :
    Exact argon2 choices u db change ((change.handle headers u).alone (exec argon2) choices db) ↔
      ¬ change.Misjudged row db := by
  rw [← guarded_iff_locksOut found active change]
  have outcome := handle_alone calm signedIn found valid
  dsimp only at outcome
  split_ifs at outcome with fires
  · rw [Exact, iff_true_intro outcome, iff_true_intro fires]
    simp
  · rw [Exact, iff_false_intro outcome.not_refused, iff_false_intro fires]
    simp [outcome]

def aliceDb : Db :=
  { rootDb with
    users := ⟨[⟨"root", "correct horse battery", .admin, "2026-04-28T12:00:00+00:00", none, none, none⟩,
      ⟨"alice", "battery horse correct", .admin, "2026-04-28T12:00:00+00:00", none, none,
        some "2026-04-28T12:00:00+00:00"⟩], by decide⟩ }

theorem root_signedIn : SignedIn rootHeaders aliceDb :=
  ⟨"5e551", _, _, by decide +kernel, rfl, rfl, rfl⟩

theorem handle_exact_alice :
    Exact plainArgon2 (fun _ => noonWorld 0) "alice" aliceDb (.patch ⟨some "staple of batteries", none, none⟩)
      (((Change.patch ⟨some "staple of batteries", none, none⟩).handle rootHeaders "alice").alone (exec plainArgon2)
        (fun _ => noonWorld 0) aliceDb) ↔
      ¬ (Change.patch ⟨some "staple of batteries", none, none⟩).Misjudged
        ⟨"alice", "battery horse correct", .admin, "2026-04-28T12:00:00+00:00", none, none,
          some "2026-04-28T12:00:00+00:00"⟩ aliceDb := by
  refine handle_exact_iff (fun _ => rfl) root_signedIn rfl (by decide) ?_
  rintro p ⟨⟩
  exact ⟨by decide, fun _ => ⟨_, rfl⟩⟩

/-- Alice is to be a viewer, which leaves root, and is refused. -/
theorem demotion_of_deactivated_refused :
    let change : Change := .patch ⟨none, some .viewer, none⟩
    Refused ((change.handle rootHeaders "alice").alone (exec plainArgon2) (fun _ => noonWorld 0) aliceDb) ∧
      ¬ change.LocksOut "alice" aliceDb := by
  have found : aliceDb.users.find? "alice" = some ⟨"alice", "battery horse correct", .admin,
      "2026-04-28T12:00:00+00:00", none, none, some "2026-04-28T12:00:00+00:00"⟩ := rfl
  intro change
  constructor
  · have outcome := @handle_alone plainArgon2 aliceDb "alice" (fun _ => noonWorld 0) (fun _ => rfl) rootHeaders
      root_signedIn _ found change nofun
    rwa [if_pos (by decide)] at outcome
  · rw [locksOut_iff found]
    exact fun none_left => absurd none_left.1 (by decide)

end Errex.Proof.Accounts.Guard
