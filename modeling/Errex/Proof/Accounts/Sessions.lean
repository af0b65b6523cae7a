import Errex.Model.Api
import Errex.Proof.Accounts.Operations

/-!
# Sessions of deactivated users

The auth gate does not look at the deactivated flag. It need not while no deactivated user has a
session; every call keeps that, except for the insertion of a session whose user was deactivated
after the checks of the login.
-/

namespace Errex.Proof.Accounts
open Foundation Model Store Auth Process

variable {argon2 : Argon2}

def SessionsActive (db : Db) : Prop :=
  ∀ session ∈ db.sessions.rows, ∀ user, db.users.find? session.username = some user → user.deactivatedAt = none

theorem SessionsActive.empty : SessionsActive Db.empty := nofun

def startsActive (db : Db) : Call → Bool
  | .createSession _ username _ _ => (db.users.find? username).all (·.deactivatedAt.isNone)
  | _ => true

namespace SessionsActive

variable {db db' : Db}

theorem of_users (holds : SessionsActive db) (sessions : db'.sessions = db.sessions)
    (users : ∀ name user', db'.users.find? name = some user' → user'.deactivatedAt = none ∨
      ∃ user, db.users.find? name = some user ∧ user'.deactivatedAt = user.deactivatedAt) :
    SessionsActive db' := by
  intro session mem user' found
  rw [sessions] at mem
  rcases users _ _ found with active | ⟨user, before, same⟩
  · exact active
  · rw [same]
    exact holds session mem user before

theorem of_sessions (holds : SessionsActive db) (users : db'.users = db.users)
    (sessions : ∀ session ∈ db'.sessions.rows, ∃ before ∈ db.sessions.rows,
      before.username = session.username) : SessionsActive db' := by
  intro session mem user found
  obtain ⟨before, stored, same⟩ := sessions session mem
  rw [users, ← same] at found
  exact holds before stored user found

theorem deleteSessions (holds : SessionsActive db) (doomed : SessionRow → Bool) :
    SessionsActive (Store.deleteSessions doomed db).2 :=
  holds.of_sessions rfl fun session mem => ⟨session, (Table.mem_delete.mp mem).1, rfl⟩

theorem updateUser (holds : SessionsActive db) (username : String) {change : UserChange}
    (keeps : ∀ row, (change.apply row).deactivatedAt = none ∨
      (change.apply row).deactivatedAt = row.deactivatedAt) :
    SessionsActive (Store.updateUser username change db).2 := by
  refine holds.of_users rfl fun name user' found => ?_
  rw [find?_updateUser] at found
  split_ifs at found
  · obtain ⟨user, before, rfl⟩ := Option.map_eq_some_iff.mp found
    exact (keeps user).imp id fun same => ⟨user, before, same⟩
  · exact .inr ⟨user', found, rfl⟩

theorem createUser {now : UtcNow} {username hash : String} {role : Role} :
    (Store.createUser now username hash role).Keeps SessionsActive := by
  refine createUser_keeps fun row users db inserted _ active _ holds => ?_
  refine holds.of_users rfl fun name user' found => ?_
  rw [Table.find?_of_insert inserted] at found
  split_ifs at found
  · cases found
    exact .inl active
  · exact .inr ⟨user', found, rfl⟩

theorem setUserDeactivated {now : UtcNow} {username : String} {deactivated : Bool} :
    (Store.setUserDeactivated now username deactivated).Keeps SessionsActive := by
  intro db u db' done holds
  obtain ⟨-, rfl⟩ := setUserDeactivated_ok done
  cases deactivated with
  | false => exact holds.updateUser username fun _ => .inl rfl
  | true =>
      intro session mem user found
      obtain ⟨stored, other⟩ := Table.mem_delete.mp mem
      have different : username ≠ session.username := by
        rintro rfl
        simp at other
      refine holds session stored user ?_
      exact ((find?_updateUser username _ db session.username).trans (if_neg different)).symm.trans found

theorem deleteUserRow (holds : SessionsActive db) (username : String) :
    SessionsActive (Store.deleteUserRow username db).2 := by
  intro session mem user found
  have := find?_deleteUserRow username db session.username
  rw [found] at this
  split_ifs at this
  exact holds session (Table.mem_delete.mp mem).1 user this.symm

theorem touchSession (holds : SessionsActive db) (id text : String) :
    SessionsActive { db with sessions := db.sessions.update (·.id == id) (seenAt text) (seenAt_id text) } := by
  refine holds.of_sessions rfl fun session mem => ?_
  rw [Table.mem_update] at mem
  obtain ⟨before, stored, rfl⟩ := mem
  exact ⟨before, stored, by split_ifs <;> rfl⟩

theorem createSession {now : UtcNow} {id username : String} {ip ua : Option String} :
    (Store.createSession now id username ip ua).Keeps fun db =>
      SessionsActive db ∧ (db.users.find? username).all (·.deactivatedAt.isNone) := by
  refine createSession_keeps fun row sessions db inserted names _ ⟨holds, active⟩ => ⟨?_, active⟩
  intro session mem user found
  rw [Table.rows_of_insert inserted] at mem
  rcases List.mem_append.mp mem with before | new
  · exact holds session before user found
  · obtain rfl := List.mem_singleton.mp new
    have found : db.users.find? username = some user := names ▸ found
    simpa [found] using active

end SessionsActive

theorem exec_sessionsActive (w : World) (c : Call) {db : Db} (active : startsActive db c)
    (holds : SessionsActive db) : SessionsActive (exec argon2 w c db).2 := by
  have frame := exec_frame argon2 w c db
  cases c
  case createUser username hash role => exact transact_keeps .createUser holds
  case setUserPassword username hash =>
    exact transact_keeps (execute_check_keeps fun _ holds => holds.updateUser _ fun _ => .inr rfl) holds
  case setUserRole username role =>
    exact transact_keeps (execute_check_keeps fun _ holds => holds.updateUser _ fun _ => .inr rfl) holds
  case setUserDeactivated username deactivated => exact transact_keeps .setUserDeactivated holds
  case deleteUser username =>
    exact transact_keeps (execute_check_keeps fun _ holds => holds.deleteUserRow _) holds
  case touchUserLogin username ip =>
    exact transact_keeps (.bind (.execute fun _ holds => holds.updateUser _ fun _ => .inr rfl) fun _ => .pure _) holds
  case createSession id username ip ua => exact (transact_keeps SessionsActive.createSession ⟨holds, active⟩).1
  case touchSession id => exact transact_keeps (.execute fun _ holds => holds.touchSession _ _) holds
  case revokeSession id =>
    exact transact_keeps (.bind (.execute fun _ holds => holds.deleteSessions _) fun _ => .pure _) holds
  case revokeUserSessions username =>
    exact transact_keeps (.execute fun _ holds => holds.deleteSessions _) holds
  case purgeSessionsIdleSince cutoff =>
    exact transact_keeps (.execute fun _ holds => holds.deleteSessions _) holds
  all_goals
    refine holds.of_sessions (frame.users rfl) fun session mem => ⟨session, ?_, rfl⟩
    rwa [frame.sessions rfl] at mem

def sessionUser (headers : HeaderMap) (db : Db) : Option UserRow := do
  let id ← extractSessionId headers
  let session ← db.sessions.find? id
  db.users.find? session.username

theorem sessionUser_of_requireAuth {headers : HeaderMap} {environment : Nat → World × Db} {ctx : AuthContext}
    (ok : (requireAuth headers).observe (exec argon2) environment = .ok (.ok ctx)) :
    ∃ user, sessionUser headers (environment 0).2 = some user := by
  unfold requireAuth at ok
  cases named : extractSessionId headers with
  | none => simp [named, observe] at ok
  | some id =>
      simp only [named, ask_bind, observe] at ok
      cases answer : (exec argon2 (environment 0).1 (.sessionForId id) (environment 0).2).1 with
      | error error => simp [answer, observe] at ok
      | ok found =>
          cases found with
          | none => simp [answer, observe] at ok
          | some context =>
              obtain ⟨row, user, stored, found⟩ := sessionForId_found (transact_ok answer)
              exact ⟨user, by simp [sessionUser, named, stored, found]⟩

/-- The turn starts no session of a deactivated user. -/
def LogsInActive (s : Serving) (turn : Nat × World) : Prop := (s.nextCall turn).all (startsActive s.state)

instance (s : Serving) (turn : Nat × World) : Decidable (LogsInActive s turn) :=
  inferInstanceAs (Decidable (_ = true))

/-- While no session of a deactivated user starts, the auth gate lets in active users only: the
session of the cookie exists at its lookup, and its user exists and is active. -/
theorem requireAuth_active (argon2 : Argon2) (parsers : Webhook.Parsers) (state : AppState)
    (requests : List Request) (schedule : List (Nat × World))
    (permitted : System.Permits (exec argon2) LogsInActive (serve parsers state Db.empty requests) schedule)
    (headers : HeaderMap) (environment : Nat → World × Db)
    (reached : (environment 0).2 = ((serve parsers state Db.empty requests).run (exec argon2) schedule).state)
    (ctx : AuthContext) (ok : (requireAuth headers).observe (exec argon2) environment = .ok (.ok ctx)) :
    ∃ user, sessionUser headers (environment 0).2 = some user ∧ user.deactivatedAt = none := by
  have holds : SessionsActive (environment 0).2 := by
    rw [reached]
    refine System.run_state_invariant SessionsActive ?_ permitted .empty
    intro s turn c resume next active holds
    have active : startsActive s.state c := by simpa [LogsInActive, System.nextCall, next] using active
    exact exec_sessionsActive turn.2 c active holds
  obtain ⟨user, found⟩ := sessionUser_of_requireAuth ok
  refine ⟨user, found, ?_⟩
  obtain ⟨id, -, rest⟩ := Option.bind_eq_some_iff.mp found
  obtain ⟨session, stored, row⟩ := Option.bind_eq_some_iff.mp rest
  exact holds session (Table.mem_of_find? stored) user row

def admitted : Outcome DaemonError (Except Response AuthContext) → Bool
  | .ok (.ok _) => true
  | _ => false

theorem exists_of_admitted {outcome : Outcome DaemonError (Except Response AuthContext)}
    (let_in : admitted outcome) : ∃ ctx, outcome = .ok (.ok ctx) := by
  unfold admitted at let_in
  split at let_in
  · exact ⟨_, rfl⟩
  · cases let_in

def setUp : Serving :=
  (serve anyParsers localState Db.empty [setupRequest]).run (exec plainArgon2) (List.replicate 8 (0, noonWorld 0))

theorem requireAuth_active_after_setup :
    ∃ user, sessionUser setupHeaders setUp.state = some user ∧ user.deactivatedAt = none := by
  obtain ⟨ctx, ok⟩ : ∃ ctx, (requireAuth setupHeaders).observe (exec plainArgon2)
      (fun _ => (noonWorld 0, setUp.state)) = .ok (.ok ctx) := exists_of_admitted (by decide +kernel)
  exact requireAuth_active plainArgon2 anyParsers localState [setupRequest] (List.replicate 8 (0, noonWorld 0))
    (by decide +kernel) setupHeaders (fun _ => (noonWorld 0, setUp.state)) rfl ctx ok

def aliceHeaders : HeaderMap :=
  [("cookie", ("errex_session=" ++ generateSessionId ⟨1⟩ ⟨1⟩).toUTF8.data.toList)]

def aliceRequests : List Request :=
  [setupRequest, .createUser setupHeaders (some ⟨"alice", "correct horse battery", .viewer⟩),
    .login none [] (some ⟨"alice", "correct horse battery"⟩),
    .patchUser "alice" setupHeaders (some ⟨none, none, some true⟩)]

def aliceSchedule : List (Nat × World) :=
  List.replicate 8 (0, noonWorld 0) ++ List.replicate 4 (1, noonWorld 0) ++
    List.replicate 9 (2, noonWorld 1) ++ List.replicate 6 (3, noonWorld 0) ++ [(2, noonWorld 1)]

def deactivatedLogin : Serving :=
  (serve anyParsers localState Db.empty aliceRequests).run (exec plainArgon2) aliceSchedule

theorem requireAuth_admits_deactivated_user :
    ¬ ∀ (argon2 : Argon2) (parsers : Webhook.Parsers) (state : AppState) (requests : List Request)
      (schedule : List (Nat × World)) (headers : HeaderMap) (environment : Nat → World × Db),
      (environment 0).2 = ((serve parsers state Db.empty requests).run (exec argon2) schedule).state →
      ∀ ctx, (requireAuth headers).observe (exec argon2) environment = .ok (.ok ctx) →
        ∃ user, sessionUser headers (environment 0).2 = some user ∧ user.deactivatedAt = none := by
  intro active
  have admits : admitted ((requireAuth aliceHeaders).observe (exec plainArgon2)
      fun _ => (noonWorld 0, deactivatedLogin.state)) ∧
      (sessionUser aliceHeaders deactivatedLogin.state).all (·.deactivatedAt.isSome) := by decide +kernel
  obtain ⟨ctx, ok⟩ := exists_of_admitted admits.1
  obtain ⟨user, found, none_set⟩ := active plainArgon2 anyParsers localState aliceRequests aliceSchedule
    aliceHeaders (fun _ => (noonWorld 0, deactivatedLogin.state)) (by simp only [deactivatedLogin]) ctx ok
  simp [found, none_set] at admits

end Errex.Proof.Accounts
