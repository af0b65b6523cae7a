import Errex.Proof.Accounts.Guard

/-!
# A PATCH that fails on the way

The writes of a PATCH are calls of their own. One that fails leaves behind what came before it, and what it wrote itself
if the failure was reported afterwards.
-/

namespace Errex.Proof.Accounts.HalfPatch
open Foundation Model Store Auth Admin Process

/-! ## What meets the calls -/

structure Meeting where
  world : World
  gone : Bool

namespace Meeting

def lands (m : Meeting) : Bool :=
  !m.gone && (match m.world.fault with
    | some (.before _) => false
    | _ => true)

def works (m : Meeting) : Bool := !m.gone && m.world.fault.isNone

theorem lands_of_works {m : Meeting} (works : m.works) : m.lands := by
  obtain ⟨world, gone⟩ := m
  cases fault : world.fault <;> cases gone <;> simp_all [Meeting.works, lands]

/-- A call on a user who is gone answers as it does without the user. -/
def exec (argon2 : Argon2) (u : String) (m : Meeting) (c : Call) (db : Db) : c.Reply × Db :=
  if m.gone then ((Model.exec argon2 m.world c (deleteUserRow u db).2).1, db) else Model.exec argon2 m.world c db

end Meeting

/-- What meets each call of the handler. -/
structure Course where
  session : Meeting
  touch : Meeting
  lookup : Meeting
  current : Meeting
  admins : Meeting
  hash : Meeting
  password : Meeting
  role : Meeting
  deactivated : Meeting
  updated : Meeting

namespace Course

def meeting (course : Course) (reads : Nat) : Call → Meeting
  | .touchSession _ => course.touch
  | .getUser _ => if reads = 0 then course.lookup else if reads = 1 then course.current else course.updated
  | .countActiveAdmins => course.admins
  | .hashPassword _ => course.hash
  | .setUserPassword _ _ => course.password
  | .setUserRole _ _ => course.role
  | .setUserDeactivated _ _ => course.deactivated
  | _ => course.session

def isRead : Call → Bool
  | .getUser _ => true
  | _ => false

def exec (argon2 : Argon2) (u : String) (course : Course) : Semantics Daemon Unit (Db × Nat) := fun _ c (db, reads) =>
  let (reply, db) := (course.meeting reads c).exec argon2 u c db
  (reply, db, if isRead c then reads + 1 else reads)

def run {α : Type} (argon2 : Argon2) (u : String) (course : Course) (p : Handler α) (db : Db) (reads : Nat) :
    Outcome DaemonError α × Db × Nat :=
  p.alone (course.exec argon2 u) (fun _ => ()) (db, reads)

end Course

/-! ## Accounts -/

/-- What is stored of a user: the password hash, the role and the time of the deactivation, and the sessions. -/
@[ext] structure Account where
  row : Option (String × Role × Option String)
  sessions : List SessionRow
  deriving DecidableEq

def account (u : String) (db : Db) : Account where
  row := (db.users.find? u).map fun row => (row.passwordHash, row.role, row.deactivatedAt)
  sessions := db.sessions.rows.filter (·.username == u)

namespace Account

def setHash (hash : String) (a : Account) : Account := { a with row := a.row.map fun (_, role, at_) => (hash, role, at_) }

def setRole (role : Role) (a : Account) : Account := { a with row := a.row.map fun (hash, _, at_) => (hash, role, at_) }

def setDeactivated (instant : String) (deactivated : Bool) (a : Account) : Account where
  row := a.row.map fun (hash, role, _) => (hash, role, Guard.deactivationText instant deactivated)
  sessions := if deactivated then [] else a.sessions

end Account

variable {argon2 : Argon2} {u : String} {db : Db} {row : UserRow}

theorem account_updateUser (change : UserChange) : (account u (updateUser u change db).2).sessions = (account u db).sessions ∧
    (account u (updateUser u change db).2).row =
      (db.users.find? u).map fun row => ((change.apply row).passwordHash, (change.apply row).role, (change.apply row).deactivatedAt) := by
  refine ⟨rfl, ?_⟩
  rw [account, find?_updateUser, if_pos rfl, Option.map_map]
  rfl

theorem account_setHash (hash : String) :
    account u (updateUser u (.passwordHash hash) db).2 = (account u db).setHash hash := by
  obtain ⟨sessions, row⟩ := @account_updateUser u db (.passwordHash hash)
  refine Account.ext (row.trans ?_) sessions
  simp [Account.setHash, account, UserChange.apply, Function.comp_def]

theorem account_setRole (role : Role) : account u (updateUser u (.role role) db).2 = (account u db).setRole role := by
  obtain ⟨sessions, row⟩ := @account_updateUser u db (.role role)
  refine Account.ext (row.trans ?_) sessions
  simp [Account.setRole, account, UserChange.apply, Function.comp_def]

theorem account_setDeactivated (instant : String) (deactivated : Bool) :
    account u (if deactivated then
        (deleteSessions (·.username == u) (updateUser u (.deactivatedAt (Guard.deactivationText instant deactivated)) db).2).2
      else (updateUser u (.deactivatedAt (Guard.deactivationText instant deactivated)) db).2) =
      (account u db).setDeactivated instant deactivated := by
  obtain ⟨sessions, row⟩ := @account_updateUser u db (.deactivatedAt (Guard.deactivationText instant deactivated))
  have users : ∀ db : Db, (account u (deleteSessions (·.username == u) db).2).row = (account u db).row := fun _ => rfl
  have gone : ∀ db : Db, (account u (deleteSessions (·.username == u) db).2).sessions = [] := by
    intro db
    refine List.filter_eq_nil_iff.mpr fun session mem => ?_
    simpa using (Table.mem_delete.mp mem).2
  have written := row.trans (by simp [account, UserChange.apply, Function.comp_def, Account.setDeactivated] :
    _ = ((account u db).setDeactivated instant deactivated).row)
  cases deactivated with
  | false => exact Account.ext written sessions
  | true => exact Account.ext ((users _).trans written) (gone _)

/-! ## Writes -/

def Meeting.transact {α : Type} (u : String) (m : Meeting) (tx : Tx α) (db : Db) : Except DaemonError α × Db :=
  if m.gone then ((Model.transact m.world tx (deleteUserRow u db).2).1, db) else Model.transact m.world tx db

theorem transact_write {m : Meeting} {tx : Tx Unit} {db' : Db} (ok : tx db = .ok ((), db'))
    (missing : ∃ error, tx (deleteUserRow u db).2 = .error error) :
    ∃ error, m.transact u tx db = if m.works then (.ok (), db') else (.error error, if m.lands then db' else db) := by
  obtain ⟨world, gone⟩ := m
  obtain ⟨error, missing⟩ := missing
  cases gone with
  | true => exact ⟨error, by simp [Meeting.transact, Meeting.works, Meeting.lands, Model.transact, missing]⟩
  | false =>
      rcases fault : world.fault with _ | e | e
      · exact ⟨error, by simp [Meeting.transact, Meeting.works, Model.transact, ok, fault]⟩
      · exact ⟨e, by simp [Meeting.transact, Meeting.works, Meeting.lands, Model.transact, ok, fault]⟩
      · exact ⟨e, by simp [Meeting.transact, Meeting.works, Meeting.lands, Model.transact, ok, fault]⟩

theorem count_deleteUserRow (u : String) (db : Db) : (deleteUserRow u db).2.users.count (·.username == u) = 0 := by
  refine List.countP_eq_zero.mpr fun row mem => ?_
  simpa using (Table.mem_delete.mp mem).2

theorem updateUser_missing (change : UserChange) (error : DaemonError) :
    (do let updated ← Transaction.execute (updateUser u change)
        if updated = 0 then Transaction.fail error : Tx Unit) (deleteUserRow u db).2 = .error error := by
  rw [Transaction.bind_run, Transaction.execute_run, Except.bind]
  exact congrFun (if_pos (count_deleteUserRow u db)) _

theorem setUserDeactivated_missing (now : UtcNow) (deactivated : Bool) :
    setUserDeactivated now u deactivated (deleteUserRow u db).2 = .error (.notFound s!"user {u}") := by
  have missing : ∀ change, (updateUser u change (deleteUserRow u db).2).1 = 0 := fun _ => count_deleteUserRow u db
  simp only [setUserDeactivated, Transaction.bind_run, Transaction.execute_run, Except.bind]
  cases deactivated <;> rw [if_pos (missing _)] <;> rfl

/-! ## The writes of a PATCH -/

section Stages

variable {α : Type} {course : Course}

theorem run_ask (c : Call) (f : c.Reply → Handler α) (reads : Nat) :
    course.run argon2 u (ask c >>= f) db reads =
      course.run argon2 u (f ((course.meeting reads c).exec argon2 u c db).1) ((course.meeting reads c).exec argon2 u c db).2
        (if Course.isRead c then reads + 1 else reads) := rfl

theorem exec_read {m : Meeting} {c : Call} (reads : ∀ w db, (Model.exec argon2 w c db).2 = db) : (m.exec argon2 u c db).2 = db := by
  unfold Meeting.exec
  split_ifs
  · rfl
  · exact reads m.world db

theorem transact_read {β : Type} (w : World) (query : Db → β) (db : Db) :
    (transact w (Transaction.read query : Tx β) db).2 = db := by
  rcases transact_cases w (Transaction.read query : Tx β) db with same | ⟨a, ok⟩
  · exact same
  · rw [Transaction.read_run] at ok
    exact (Prod.mk.inj (Except.ok.inj ok)).2.symm

theorem run_written {r : Except DaemonError Unit × Db} {db' left : Db} {works : Bool} {error : DaemonError}
    (answer : r = if works then (.ok (), db') else (.error error, left)) (rest : Handler α) (reads : Nat) :
    (course.run argon2 u (do ofExcept r.1; rest) r.2 reads).2.1 =
      if works then (course.run argon2 u rest db' reads).2.1 else left := by
  subst answer
  cases works <;> rfl

def finish (u : String) : Handler Response := do
  let updated ← ofOption (← ofExcept (← ask (.getUser u)))
  return .json 200 (.user updated)

theorem run_finish (reads : Nat) : (course.run argon2 u (finish u) db reads).2.1 = db := by
  have read : ((course.meeting reads (.getUser u)).exec argon2 u (.getUser u) db).2 = db :=
    exec_read fun w db => transact_read w _ db
  rw [finish, run_ask, read]
  rcases ((course.meeting reads (.getUser u)).exec argon2 u (.getUser u) db).1 with error | _ | user <;> rfl

def deactivationAfter (course : Course) (deactivated : Option Bool) (a : Account) : Account :=
  match deactivated with
  | none => a
  | some b =>
      if course.deactivated.lands then a.setDeactivated course.deactivated.world.now.instant.toRfc3339 b else a

def roleAfter (course : Course) (body : PatchUserBody) (a : Account) : Account :=
  match body.role with
  | none => deactivationAfter course body.deactivated a
  | some role =>
      if course.role.works then deactivationAfter course body.deactivated (a.setRole role)
      else if course.role.lands then a.setRole role else a

def passwordAfter (argon2 : Argon2) (course : Course) (body : PatchUserBody) (a : Account) : Account :=
  match body.password with
  | none => roleAfter course body a
  | some p =>
      match argon2.hashPassword course.hash.world.uuid p with
      | .error _ => a
      | .ok hash =>
          if course.password.works then roleAfter course body (a.setHash hash)
          else if course.password.lands then a.setHash hash else a

theorem found_of_row (there : (account u db).row.isSome) : ∃ row, db.users.find? u = some row := by
  rwa [account, Option.isSome_map, Option.isSome_iff_exists] at there

theorem run_deactivation (there : (account u db).row.isSome) (deactivated : Option Bool) (reads : Nat) :
    account u (course.run argon2 u (do
      ifSome deactivated fun deact => do ofExcept (← ask (.setUserDeactivated u deact))
      finish u) db reads).2.1 = deactivationAfter course deactivated (account u db) := by
  cases deactivated with
  | none => exact congrArg (account u) (run_finish reads)
  | some b =>
      obtain ⟨row, found⟩ := found_of_row there
      obtain ⟨db', ok, after⟩ : ∃ db', setUserDeactivated course.deactivated.world.now u b db = .ok ((), db') ∧
          account u db' = (account u db).setDeactivated course.deactivated.world.now.instant.toRfc3339 b :=
        ⟨_, setUserDeactivated_run found, account_setDeactivated _ b⟩
      obtain ⟨error, answer⟩ := @transact_write u db course.deactivated _ _ ok ⟨_, setUserDeactivated_missing _ b⟩
      refine (congrArg (account u) (run_written answer (finish u) reads)).trans ?_
      rw [run_finish, deactivationAfter, apply_ite (account u), apply_ite (account u), after]
      split_ifs with works lands
      · rfl
      · exact absurd (Meeting.lands_of_works works) lands
      · rfl
      · rfl

theorem run_role (there : (account u db).row.isSome) (body : PatchUserBody) (reads : Nat) :
    account u (course.run argon2 u (do
      ifSome body.role fun role => do ofExcept (← ask (.setUserRole u role))
      ifSome body.deactivated fun deact => do ofExcept (← ask (.setUserDeactivated u deact))
      finish u) db reads).2.1 = roleAfter course body (account u db) := by
  rw [roleAfter]
  cases body.role with
  | none => exact run_deactivation there body.deactivated reads
  | some role =>
      obtain ⟨row, found⟩ := found_of_row there
      obtain ⟨error, answer⟩ := @transact_write u db course.role (setUserRole u role) _
        (execute_check_run (count_username_ne_zero found)) ⟨_, updateUser_missing (.role role) _⟩
      refine (congrArg (account u) (run_written answer _ reads)).trans ?_
      rw [apply_ite (account u), apply_ite (account u), run_deactivation, account_setRole]
      rw [account_setRole, Account.setRole, Option.isSome_map]
      exact there

theorem run_applyPatch (there : (account u db).row.isSome) (body : PatchUserBody) (reads : Nat) :
    account u (course.run argon2 u (applyPatch u body) db reads).2.1 = passwordAfter argon2 course body (account u db) := by
  rw [passwordAfter]
  obtain ⟨password, role, deactivated⟩ := body
  cases password with
  | none => exact run_role there ⟨none, role, deactivated⟩ reads
  | some p =>
      obtain ⟨row, found⟩ := found_of_row there
      have hashed : course.hash.exec argon2 u (.hashPassword p) db = (hashPassword argon2 course.hash.world p, db) := by
        unfold Meeting.exec
        split_ifs <;> rfl
      simp only [applyPatch, ifSome, Process.bind_assoc]
      rw [run_ask]
      change account u (course.run argon2 u (ofExcept (course.hash.exec argon2 u (.hashPassword p) db).1 >>= _)
        (course.hash.exec argon2 u (.hashPassword p) db).2 reads).2.1 = _
      rw [hashed, hashPassword]
      cases argon2.hashPassword course.hash.world.uuid p with
      | error message => rfl
      | ok hash =>
          obtain ⟨error, answer⟩ := @transact_write u db course.password (setUserPassword u hash) _
            (execute_check_run (count_username_ne_zero found)) ⟨_, updateUser_missing (.passwordHash hash) _⟩
          have there' : (account u (updateUser u (.passwordHash hash) db).2).row.isSome := by
            rw [account_setHash, Account.setHash, Option.isSome_map]
            exact there
          have next := @run_role argon2 u _ course there' ⟨some p, role, deactivated⟩ reads
          rw [account_setHash] at next
          refine (congrArg (account u) (run_written answer _ reads)).trans ?_
          rw [apply_ite (account u), apply_ite (account u), account_setHash]
          exact congrArg (fun after => if course.password.works then after else _) next

/-! ## Writes that change nothing -/

theorem deactivationAfter_form (course : Course) (deactivated : Option Bool) (at_ : Option String) :
    ∃ at_' left, (left = id ∨ left = fun _ => []) ∧ ∀ hash role sessions,
      deactivationAfter course deactivated ⟨some (hash, role, at_), sessions⟩ = ⟨some (hash, role, at_'), left sessions⟩ := by
  rcases deactivated with _ | deactivated
  · exact ⟨_, id, .inl rfl, fun _ _ _ => rfl⟩
  · cases lands : course.deactivated.lands with
    | false => exact ⟨at_, id, .inl rfl, fun _ _ _ => by simp [deactivationAfter, lands]⟩
    | true =>
        cases deactivated with
        | false => exact ⟨_, id, .inl rfl, fun _ _ _ => by simp [deactivationAfter, lands, Account.setDeactivated]; rfl⟩
        | true =>
            exact ⟨_, fun _ => [], .inr rfl, fun _ _ _ => by simp [deactivationAfter, lands, Account.setDeactivated]; rfl⟩

theorem roleAfter_form (course : Course) (body : PatchUserBody) (role : Role) (at_ : Option String) :
    ∃ role' at_' left, (left = id ∨ left = fun _ => []) ∧ ∀ hash sessions,
      roleAfter course body ⟨some (hash, role, at_), sessions⟩ = ⟨some (hash, role', at_'), left sessions⟩ := by
  obtain ⟨at_', left, which, form⟩ := deactivationAfter_form course body.deactivated at_
  unfold roleAfter
  rcases body.role with _ | role'
  · exact ⟨role, at_', left, which, fun hash sessions => form hash role sessions⟩
  · cases course.role.works with
    | true => exact ⟨role', at_', left, which, fun hash sessions => form hash role' sessions⟩
    | false =>
        cases course.role.lands with
        | true => exact ⟨role', at_, id, .inl rfl, fun _ _ => rfl⟩
        | false => exact ⟨role, at_, id, .inl rfl, fun _ _ => rfl⟩

def RoleDone (course : Course) (body : PatchUserBody) : Prop := body.role.isSome → course.role.works

def PasswordDone (argon2 : Argon2) (course : Course) (body : PatchUserBody) : Prop :=
  ∀ p ∈ body.password, (∃ hash, argon2.hashPassword course.hash.world.uuid p = .ok hash) ∧ course.password.works

theorem roleAfter_eq_iff {body : PatchUserBody} {a : Account} (there : a.row.isSome) :
    roleAfter course body a = a ↔ (∀ role ∈ body.role, course.role.lands → a.setRole role = a) ∧
      (RoleDone course body → deactivationAfter course body.deactivated a = a) := by
  obtain ⟨_ | ⟨hash, role, at_⟩, sessions⟩ := a
  · cases there
  obtain ⟨at_', left, -, form⟩ := deactivationAfter_form course body.deactivated at_
  unfold roleAfter RoleDone
  rcases body.role with _ | role'
  · simp
  · cases works : course.role.works with
    | true => simp [form, Meeting.lands_of_works works, Account.setRole, and_assoc]
    | false => cases course.role.lands <;> simp

theorem passwordAfter_eq_iff {body : PatchUserBody} {a : Account} (there : a.row.isSome) :
    passwordAfter argon2 course body a = a ↔
      (∀ p ∈ body.password, ∀ hash, argon2.hashPassword course.hash.world.uuid p = .ok hash → course.password.lands →
        a.setHash hash = a) ∧
      (PasswordDone argon2 course body → roleAfter course body a = a) := by
  obtain ⟨_ | ⟨hash, role, at_⟩, sessions⟩ := a
  · cases there
  obtain ⟨role', at_', left, -, form⟩ := roleAfter_form course body role at_
  unfold passwordAfter PasswordDone
  rcases body.password with _ | p
  · simp
  · rcases hashed : argon2.hashPassword course.hash.world.uuid p with message | hash'
    · simp [hashed]
    · cases works : course.password.works with
      | true => simp [form, hashed, Meeting.lands_of_works works, Account.setHash, and_assoc]
      | false => cases course.password.lands <;> simp [hashed]

theorem passwordAfter_form (argon2 : Argon2) (course : Course) (body : PatchUserBody) {row : Option (String × Role × Option String)}
    (there : row.isSome) :
    ∃ row' left, (left = id ∨ left = fun _ => []) ∧ ∀ sessions, passwordAfter argon2 course body ⟨row, sessions⟩ =
      ⟨row', left sessions⟩ := by
  rcases row with _ | ⟨hash, role, at_⟩
  · cases there
  obtain ⟨role', at_', left, which, form⟩ := roleAfter_form course body role at_
  unfold passwordAfter
  rcases body.password with _ | p
  · exact ⟨_, left, which, fun sessions => form hash sessions⟩
  · dsimp only
    rcases argon2.hashPassword course.hash.world.uuid p with message | hash'
    · exact ⟨_, id, .inl rfl, fun _ => rfl⟩
    · cases course.password.works with
      | true => exact ⟨_, left, which, fun sessions => form hash' sessions⟩
      | false =>
          cases course.password.lands with
          | true => exact ⟨_, id, .inl rfl, fun _ => rfl⟩
          | false => exact ⟨_, id, .inl rfl, fun _ => rfl⟩

theorem passwordAfter_touched_iff {body : PatchUserBody} {a : Account} (there : a.row.isSome) (touch : SessionRow → SessionRow) :
    passwordAfter argon2 course body ⟨a.row, a.sessions.map touch⟩ = a ↔
      a.sessions.map touch = a.sessions ∧ passwordAfter argon2 course body a = a := by
  obtain ⟨row, sessions⟩ := a
  obtain ⟨row', left, rfl | rfl, form⟩ := passwordAfter_form argon2 course body there
  · simp [form, and_comm]
  · simp only [form, Account.mk.injEq]
    constructor
    · rintro ⟨same, rfl⟩
      exact ⟨rfl, same, rfl⟩
    · exact fun h => h.2

end Stages

/-! ## The request -/

section Request

variable {course : Course}

def touched (id text : String) (session : SessionRow) : SessionRow := if session.id == id then seenAt text session else session

theorem account_seen (id text : String) : account u (Guard.seen id text db) =
    ⟨(account u db).row, (account u db).sessions.map (touched id text)⟩ := by
  have owner : ∀ session, ((touched id text session).username == u) = (session.username == u) := by
    intro session
    unfold touched
    split_ifs <;> rfl
  have sessions : (Guard.seen id text db).sessions.rows = db.sessions.rows.map (touched id text) := rfl
  simp only [account, sessions, List.filter_map, Function.comp_def, owner]
  rfl

structure Admitted (argon2 : Argon2) (u : String) (course : Course) (db : Db) (body : PatchUserBody) : Prop where
  lookup : course.lookup.works
  current : course.current.works
  strong : ∀ p ∈ body.password, validatePasswordStrength p = .ok ()
  guard : ∃ row, db.users.find? u = some row ∧ ((Guard.Change.patch body).guarded (User.ofRow noon row) →
    ∃ admins, (course.admins.exec argon2 u .countActiveAdmins db).1 = .ok admins ∧ 1 < admins)

structure Idle (argon2 : Argon2) (course : Course) (body : PatchUserBody) (a : Account) : Prop where
  password : ∀ p ∈ body.password, ∀ hash, argon2.hashPassword course.hash.world.uuid p = .ok hash →
    course.password.lands → a.setHash hash = a
  role : PasswordDone argon2 course body → ∀ role ∈ body.role, course.role.lands → a.setRole role = a
  deactivated : PasswordDone argon2 course body → RoleDone course body → ∀ deactivated ∈ body.deactivated,
    course.deactivated.lands → a.setDeactivated course.deactivated.world.now.instant.toRfc3339 deactivated = a

theorem passwordAfter_idle_iff {body : PatchUserBody} {a : Account} (there : a.row.isSome) :
    passwordAfter argon2 course body a = a ↔ Idle argon2 course body a := by
  have last : deactivationAfter course body.deactivated a = a ↔ ∀ deactivated ∈ body.deactivated,
      course.deactivated.lands → a.setDeactivated course.deactivated.world.now.instant.toRfc3339 deactivated = a := by
    unfold deactivationAfter
    cases body.deactivated with
    | none => simp
    | some deactivated => cases course.deactivated.lands <;> simp
  rw [passwordAfter_eq_iff there, roleAfter_eq_iff there, last]
  constructor
  · rintro ⟨password, rest⟩
    exact ⟨password, fun done => (rest done).1, fun done => (rest done).2⟩
  · rintro ⟨password, role, deactivated⟩
    exact ⟨password, fun done => ⟨role done, deactivated done⟩⟩

def Finds (argon2 : Argon2) (u : String) (course : Course) (headers : HeaderMap) (db : Db) (session : Session) (role : Role) :
    Prop :=
  ∃ id deactivated, extractSessionId headers = some id ∧
    (course.session.exec argon2 u (.sessionForId id) db).1 = .ok (some (session, role, deactivated))

def behind (course : Course) (session : Session) (db : Db) : Db :=
  if course.touch.lands then Guard.seen session.id course.touch.world.now.instant.toRfc3339 db else db

/-- Nothing that the request writes before it fails is a change of the account. -/
def Untouched (argon2 : Argon2) (u : String) (course : Course) (headers : HeaderMap) (body : Option PatchUserBody)
    (db : Db) : Prop :=
  ∀ session role, Finds argon2 u course headers db session role →
    account u (behind course session db) = account u db ∧
      (role = .admin → ∀ patch ∈ body, Admitted argon2 u course db patch → Idle argon2 course patch (account u db))

theorem getUser_reply {m : Meeting} {user : User} : (m.exec argon2 u (.getUser u) db).1 = .ok (some user) ↔
    m.works ∧ ∃ row, db.users.find? u = some row ∧ user = User.ofRow m.world.now row := by
  obtain ⟨world, gone⟩ := m
  cases gone with
  | true =>
      have missing : (deleteUserRow u db).2.users.find? u = none := by rw [find?_deleteUserRow, if_pos rfl]
      constructor
      · intro answer
        have ok := transact_ok (show (transact world (getUser world.now u) (deleteUserRow u db).2).1 = _ from answer)
        rw [getUser, Transaction.read_run, missing] at ok
        cases ok
      · rintro ⟨works, -⟩
        cases works
  | false =>
      constructor
      · intro answer
        change (transact world (getUser world.now u) db).1 = _ at answer
        have ok := transact_ok answer
        rw [getUser, Transaction.read_run] at ok
        obtain ⟨row, found, rfl⟩ := Option.map_eq_some_iff.mp (Prod.mk.inj (Except.ok.inj ok)).1
        refine ⟨?_, row, found, rfl⟩
        rcases fault : world.fault with _ | e | e
        · simp [Meeting.works, fault]
        · simp [transact, getUser, fault] at answer
        · simp [transact, getUser, fault] at answer
      · rintro ⟨works, row, found, rfl⟩
        have calm : world.fault = none := by simpa [Meeting.works] using works
        have read : getUser world.now u db = .ok (some (User.ofRow world.now row), db) := by simp [getUser, found]
        exact congrArg Prod.fst (transact_of_ok calm read)

def behindGate (u : String) (body : PatchUserBody) : Handler Response := do
  if (← ofExcept (← ask (.getUser u))).isNone then
    return .text 404 "user not found"
  match body.password.map validatePasswordStrength with
  | some (.error why) => return .text 400 why
  | _ => do
      let current ← ofOption (← ofExcept (← ask (.getUser u)))
      if demoting body current || deactivating body current then
        let admins ← ofExcept (← ask .countActiveAdmins)
        if admins ≤ 1 then
          return .text 409 "cannot demote or deactivate the last active admin"
      applyPatch u body

theorem run_getUser {α : Type} (reads : Nat) (f : Option User → Handler α) :
    let reply := ((course.meeting reads (.getUser u)).exec argon2 u (.getUser u) db).1
    course.run argon2 u (do f (← ofExcept (← ask (.getUser u)))) db reads =
      course.run argon2 u (do f (← ofExcept reply)) db (reads + 1) := by
  have read : ((course.meeting reads (.getUser u)).exec argon2 u (.getUser u) db).2 = db :=
    exec_read fun w db => transact_read w _ db
  rw [run_ask, read]
  rfl

theorem run_behindGate (body : PatchUserBody) :
    Admitted argon2 u course db body ∧ account u (course.run argon2 u (behindGate u body) db 0).2.1 =
      passwordAfter argon2 course body (account u db) ∨
    ¬ Admitted argon2 u course db body ∧ account u (course.run argon2 u (behindGate u body) db 0).2.1 = account u db := by
  have first : course.meeting 0 (.getUser u) = course.lookup := rfl
  have second : course.meeting (0 + 1) (.getUser u) = course.current := rfl
  rw [behindGate, run_getUser, first]
  have looked : ∀ user, _ ↔ _ := fun user => @getUser_reply argon2 u db course.lookup user
  generalize (course.lookup.exec argon2 u (.getUser u) db).1 = reply at looked
  rcases reply with error | _ | user
  · refine .inr ⟨fun admitted => ?_, rfl⟩
    obtain ⟨row, found, -⟩ := admitted.guard
    cases (looked _).mpr ⟨admitted.lookup, row, found, rfl⟩
  · refine .inr ⟨fun admitted => ?_, rfl⟩
    obtain ⟨row, found, -⟩ := admitted.guard
    cases (looked _).mpr ⟨admitted.lookup, row, found, rfl⟩
  obtain ⟨lookup, row, found, -⟩ := (looked user).mp rfl
  rw [ofExcept_ok, ret_bind, if_neg (by simp)]
  split
  · rename_i why refused
    refine .inr ⟨fun admitted => ?_, rfl⟩
    obtain ⟨p, given, weak⟩ := Option.map_eq_some_iff.mp refused
    rw [admitted.strong p given] at weak
    cases weak
  rename_i strong
  have strong : ∀ p ∈ body.password, validatePasswordStrength p = .ok () := by
    intro p given
    rcases checked : validatePasswordStrength p with why | ⟨⟩
    · refine absurd ?_ (strong why)
      rw [given, Option.map_some, checked]
    · rfl
  rw [run_getUser, second]
  have looked : ∀ user, _ ↔ _ := fun user => @getUser_reply argon2 u db course.current user
  generalize (course.current.exec argon2 u (.getUser u) db).1 = reply at looked
  rcases reply with error | _ | current
  · refine .inr ⟨fun admitted => ?_, rfl⟩
    cases (looked _).mpr ⟨admitted.current, row, found, rfl⟩
  · refine .inr ⟨fun admitted => ?_, rfl⟩
    cases (looked _).mpr ⟨admitted.current, row, found, rfl⟩
  obtain ⟨works, row', found', rfl⟩ := (looked current).mp rfl
  obtain rfl : row = row' := Option.some.inj (found.symm.trans found')
  have there : (account u db).row.isSome := by rw [account, found, Option.map_some, Option.isSome_some]
  have guarded := Guard.guarded_ofRow (.patch body) course.current.world.now noon row
  rw [Guard.Change.guarded] at guarded
  rw [ofExcept_ok, ret_bind, ofOption_some, ret_bind, guarded]
  split_ifs with fires
  · have meeting : course.meeting (0 + 1 + 1) .countActiveAdmins = course.admins := rfl
    have read : (course.admins.exec argon2 u .countActiveAdmins db).2 = db := exec_read fun w db => transact_read w _ db
    have refused : (∀ admins, (course.admins.exec argon2 u .countActiveAdmins db).1 = .ok admins → admins ≤ 1) →
        ¬ Admitted argon2 u course db body := by
      intro few admitted
      obtain ⟨row', found', guard⟩ := admitted.guard
      obtain rfl : row = row' := Option.some.inj (found.symm.trans found')
      obtain ⟨admins, counted, several⟩ := guard fires
      have := few admins counted
      omega
    rw [run_ask, meeting, read]
    rcases counted : (course.admins.exec argon2 u .countActiveAdmins db).1 with error | admins
    · refine .inr ⟨refused fun admins ok => ?_, rfl⟩
      rw [counted] at ok
      cases ok
    · rw [ofExcept_ok, ret_bind]
      by_cases few : admins ≤ 1
      · rw [if_pos few]
        refine .inr ⟨refused fun admins' ok => ?_, rfl⟩
        rw [counted] at ok
        exact Except.ok.inj ok ▸ few
      · rw [if_neg few]
        refine .inl ⟨⟨lookup, works, strong, row, found, fun _ => ⟨admins, counted, by omega⟩⟩, ?_⟩
        exact run_applyPatch there body 2
  · exact .inl ⟨⟨lookup, works, strong, row, found, fun h => absurd h fires⟩, run_applyPatch there body 2⟩

theorem admitted_seen {body : PatchUserBody} (id text : String) :
    Admitted argon2 u course (Guard.seen id text db) body ↔ Admitted argon2 u course db body := by
  have counted : (course.admins.exec argon2 u .countActiveAdmins (Guard.seen id text db)).1 =
      (course.admins.exec argon2 u .countActiveAdmins db).1 := by
    obtain ⟨world, gone⟩ := course.admins
    cases gone <;> rcases fault : world.fault with _ | e | e <;>
      simp [Meeting.exec, Model.exec, transact, countActiveAdmins, fault] <;> rfl
  constructor <;> rintro ⟨lookup, current, strong, row, found, guard⟩
  · exact ⟨lookup, current, strong, row, found, fun fires => counted ▸ guard fires⟩
  · exact ⟨lookup, current, strong, row, found, fun fires => counted.symm ▸ guard fires⟩

theorem touchSession_after (id : String) : (course.touch.exec argon2 u (.touchSession id) db).2 =
    if course.touch.lands then Guard.seen id course.touch.world.now.instant.toRfc3339 db else db := by
  obtain ⟨world, gone⟩ := course.touch
  cases gone with
  | true => rfl
  | false =>
      change (transact world (touchSession world.now id) db).2 = _
      rcases fault : world.fault with _ | e | e <;> simp only [transact, Meeting.lands, fault] <;> rfl

theorem run_checkAdmin (headers : HeaderMap) (rest : Handler Response) :
    (∃ session role, Finds argon2 u course headers db session role ∧
      if role = .admin then course.run argon2 u (checkAdmin headers rest) db 0 =
        course.run argon2 u rest (behind course session db) 0
      else (course.run argon2 u (checkAdmin headers rest) db 0).2.1 = behind course session db) ∨
    (∀ session role, ¬ Finds argon2 u course headers db session role) ∧
      (course.run argon2 u (checkAdmin headers rest) db 0).2.1 = db := by
  unfold Finds
  rw [checkAdmin, requireAdmin, requireAuth]
  cases cookie : extractSessionId headers with
  | none =>
      refine .inr ⟨fun _ _ found => ?_, rfl⟩
      obtain ⟨_, _, none_, -⟩ := found
      cases none_
  | some id =>
      have read : (course.session.exec argon2 u (.sessionForId id) db).2 = db := exec_read fun w db => transact_read w _ db
      have meeting : course.meeting 0 (.sessionForId id) = course.session := rfl
      simp only [Process.bind_assoc, run_ask, meeting, read]
      rcases answer : (course.session.exec argon2 u (.sessionForId id) db).1 with error | _ | ⟨session, role, deactivated⟩
      · refine .inr ⟨fun session role found => ?_, rfl⟩
        obtain ⟨_, deactivated, same, found⟩ := found
        rw [← Option.some.inj same, answer] at found
        cases found
      · refine .inr ⟨fun session role found => ?_, rfl⟩
        obtain ⟨_, deactivated, same, found⟩ := found
        rw [← Option.some.inj same, answer] at found
        cases found
      · refine .inl ⟨session, role, ⟨id, deactivated, rfl, answer⟩, ?_⟩
        have touch := @touchSession_after argon2 u db course session.id
        cases role with
        | admin => exact (if_pos rfl).mpr (congrArg (fun db => course.run argon2 u rest db 0) touch)
        | viewer => exact (if_neg (by decide)).mpr touch

theorem Finds.unique {headers : HeaderMap} {session session' : Session} {role role' : Role}
    (found : Finds argon2 u course headers db session role) (found' : Finds argon2 u course headers db session' role') :
    session = session' ∧ role = role' := by
  obtain ⟨id, deactivated, cookie, answer⟩ := found
  obtain ⟨id', deactivated', cookie', answer'⟩ := found'
  obtain rfl : id = id' := Option.some.inj (cookie.symm.trans cookie')
  cases answer.symm.trans answer'
  exact ⟨rfl, rfl⟩

theorem account_behind (course : Course) (session : Session) : ∃ touch, account u (behind course session db) =
    ⟨(account u db).row, (account u db).sessions.map touch⟩ := by
  unfold behind
  split_ifs
  · exact ⟨_, account_seen _ _⟩
  · exact ⟨id, by rw [List.map_id]⟩

theorem admitted_behind {body : PatchUserBody} (session : Session) :
    Admitted argon2 u course (behind course session db) body ↔ Admitted argon2 u course db body := by
  unfold behind
  split_ifs
  · exact admitted_seen _ _
  · exact Iff.rfl

/-- A PATCH that is answered with anything but 200 has left the account as it was exactly where each write that took
effect set what was there. -/
theorem patch_untouched_iff (argon2 : Argon2) (u : String) (course : Course) (headers : HeaderMap)
    (body : Option PatchUserBody) (db : Db) :
    let out := course.run argon2 u (adminPatchUser u headers body) db 0
    ¬ (∃ response, out.1 = .ok response ∧ response.status = 200) →
      (account u out.2.1 = account u db ↔ Untouched argon2 u course headers body db) := by
  intro out _
  change account u (course.run argon2 u (checkAdmin headers (withBody body (behindGate u))) db 0).2.1 = _ ↔ _
  rcases run_checkAdmin headers (withBody body (behindGate u)) with ⟨session, role, found, after⟩ | ⟨none_, after⟩
  · have sole : Untouched argon2 u course headers body db ↔ account u (behind course session db) = account u db ∧
        (role = .admin → ∀ patch ∈ body, Admitted argon2 u course db patch → Idle argon2 course patch (account u db)) := by
      refine ⟨fun untouched => untouched session role found, fun holds session' role' found' => ?_⟩
      obtain ⟨rfl, rfl⟩ := found.unique found'
      exact holds
    rw [sole]
    by_cases admin : role = .admin
    · rw [if_pos admin] at after
      rw [after]
      cases body with
      | none => simp [withBody, Course.run, alone]
      | some body =>
          obtain ⟨touch, seen⟩ := @account_behind u db course session
          rcases @run_behindGate argon2 u (behind course session db) course body with ⟨admitted, result⟩ | ⟨refused, result⟩
          · have admitted : Admitted argon2 u course db body := (admitted_behind session).mp admitted
            obtain ⟨row, stored, -⟩ := admitted.guard
            have there : (account u db).row.isSome := by rw [account, stored, Option.map_some, Option.isSome_some]
            have kept : (⟨(account u db).row, (account u db).sessions.map touch⟩ : Account) = account u db ↔
                (account u db).sessions.map touch = (account u db).sessions := by
              rw [Account.ext_iff]
              exact and_iff_right rfl
            rw [withBody, result, seen, passwordAfter_touched_iff there, passwordAfter_idle_iff there, kept]
            simp [admin, admitted]
          · rw [withBody, result]
            rw [admitted_behind] at refused
            simp [refused]
    · rw [if_neg admin] at after
      rw [after]
      simp [admin]
  · rw [after]
    exact iff_of_true rfl fun session role found => absurd found (none_ session role)

def smooth : Meeting := ⟨noonWorld 0, false⟩

def fullDisk : Course where
  session := smooth
  touch := smooth
  lookup := smooth
  current := smooth
  admins := smooth
  hash := smooth
  password := smooth
  role := ⟨{ noonWorld 0 with fault := some (.before (.sqlx (.other "database or disk is full"))) }, false⟩
  deactivated := smooth
  updated := smooth

def promotion : PatchUserBody := ⟨some "staple of batteries", some .admin, none⟩

theorem promotion_fails : (fullDisk.run plainArgon2 "alice" (adminPatchUser "alice" rootHeaders (some promotion))
    Guard.aliceDb 0).1 = .err (.sqlx (.other "database or disk is full")) := by
  decide +kernel

theorem promotion_untouched_iff :
    account "alice" (fullDisk.run plainArgon2 "alice" (adminPatchUser "alice" rootHeaders (some promotion))
      Guard.aliceDb 0).2.1 = account "alice" Guard.aliceDb ↔
        Untouched plainArgon2 "alice" fullDisk rootHeaders (some promotion) Guard.aliceDb := by
  refine patch_untouched_iff plainArgon2 "alice" fullDisk rootHeaders (some promotion) Guard.aliceDb ?_
  rintro ⟨response, answer, -⟩
  rw [promotion_fails] at answer
  cases answer

/-- The request is answered with 500, and the password is another one. -/
theorem half_patched :
    let out := fullDisk.run plainArgon2 "alice" (adminPatchUser "alice" rootHeaders (some promotion)) Guard.aliceDb 0
    out.1 = .err (.sqlx (.other "database or disk is full")) ∧ account "alice" out.2.1 ≠ account "alice" Guard.aliceDb := by
  decide +kernel

end Request

end Errex.Proof.Accounts.HalfPatch
