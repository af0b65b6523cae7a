import Errex.Foundation.Alike
import Errex.Proof.Accounts.Lockout

/-!
# Refused logins look alike

Whether a login is refused because there is no such user, because the password is wrong or because the user is
deactivated can be told neither from the answer nor from the calls that lead to it: each checks exactly one hash.
-/

namespace Errex.Proof.Accounts
open Foundation Process Model Store Auth

/-- The calls of two logins look the same when they differ at most in the hash that a password is checked against. -/
def SameLook : Call → Call → Prop
  | .verifyPassword _ plain, c => ∃ hash, c = .verifyPassword hash plain
  | c, c' => c' = c

def hashFor (username : String) (db : Db) : String := ((db.users.find? username).map (·.passwordHash)).getD garbageHash

def isActive (username : String) (db : Db) : Bool := (db.users.find? username).any (·.deactivatedAt.isNone)

/-- At no two times together does the password fit and is the user active. -/
def Refused (argon2 : Argon2) (username password : String) (environment : Nat → World × Db) : Prop :=
  ∀ m n, argon2.verifyPassword (hashFor username (environment m).2) password = true →
    isActive username (environment n).2 = false

def SameAttempts (here there : Nat → World × Db) : Prop :=
  ∀ n, (here n).1 = (there n).1 ∧ (here n).2.attempts = (there n).2.attempts

variable {argon2 : Argon2} {here there : Nat → World × Db}

theorem SameAttempts.later (same : SameAttempts here there) :
    SameAttempts (fun n => here (n + 1)) (fun n => there (n + 1)) := fun n => same (n + 1)

theorem Refused.later {username password : String} (refused : Refused argon2 username password here) :
    Refused argon2 username password fun n => here (n + 1) := fun m n => refused (m + 1) (n + 1)

def readIn {α : Type} (w : World) (a : α) : Except DaemonError α :=
  match w.fault with
  | none => .ok a
  | some (.before error) | some (.after error) => .error error

theorem transact_read {α : Type} (w : World) (query : Db → α) (db : Db) :
    (transact w (Transaction.read query) db).1 = readIn w (query db) := by
  unfold transact readIn
  rcases w.fault with _ | _ | _ <;> rfl

theorem readIn_cases (w : World) : (∀ {α : Type} (a : α), readIn w a = .ok a) ∨
    ∃ error, ∀ {α : Type} (a : α), readIn w a = .error error := by
  unfold readIn
  rcases w.fault with _ | error | error
  · exact .inl fun _ => rfl
  · exact .inr ⟨error, fun _ => rfl⟩
  · exact .inr ⟨error, fun _ => rfl⟩

theorem countUser_same (same : SameAttempts here there) (username : String) (start : DateTime) :
    (exec argon2 (here 0).1 (.countRecentFailuresForUsername username start) (here 0).2).1 =
      (exec argon2 (there 0).1 (.countRecentFailuresForUsername username start) (there 0).2).1 := by
  obtain ⟨worlds, attempts⟩ := same 0
  refine (transact_read _ _ _).trans (.trans ?_ (transact_read _ _ _).symm)
  rw [worlds, attempts]

theorem countIp_same (same : SameAttempts here there) (ip : String) (start : DateTime) :
    (exec argon2 (here 0).1 (.countRecentFailuresForIp ip start) (here 0).2).1 =
      (exec argon2 (there 0).1 (.countRecentFailuresForIp ip start) (there 0).2).1 := by
  obtain ⟨worlds, attempts⟩ := same 0
  refine (transact_read _ _ _).trans (.trans ?_ (transact_read _ _ _).symm)
  rw [worlds, attempts]

theorem ask_alike {α : Type} {c : Call} {f f' : c.Reply → Handler α} (looks : SameLook c c)
    (answer : (exec argon2 (here 0).1 c (here 0).2).1 = (exec argon2 (there 0).1 c (there 0).2).1)
    (rest : ∀ reply, Alike (exec argon2) SameLook (fun n => here (n + 1)) (fun n => there (n + 1)) (f reply) (f' reply)) :
    Alike (exec argon2) SameLook here there (Model.ask c >>= f) (Model.ask c >>= f') := .ask looks answer rest

section Login

variable {state : AppState} {headers : HeaderMap} {username ip password : String}

theorem concludeLogin_alike {verified verified' : Bool} {user user' : Option User}
    (refused : verified = false ∨ (user.filter (·.deactivatedAt.isNone)).isSome = false)
    (refused' : verified' = false ∨ (user'.filter (·.deactivatedAt.isNone)).isSome = false) :
    Alike (exec argon2) SameLook here there (concludeLogin state headers username ip verified user)
      (concludeLogin state headers username ip verified' user') := by
  unfold concludeLogin
  simp only [refused, refused', if_true]
  exact .ask rfl rfl fun _ => rfl

theorem active_of_getUser {now : UtcNow} {db : Db} :
    (((db.users.find? username).map (User.ofRow now)).filter (·.deactivatedAt.isNone)).isSome = isActive username db := by
  unfold isActive
  cases db.users.find? username with
  | none => rfl
  | some row => cases active : row.deactivatedAt <;> simp [User.ofRow, active, Option.filter]

theorem hash_answer (w : World) (db : Db) : (exec argon2 w (.getUserPasswordHash username) db).1 =
    readIn w ((db.users.find? username).map (·.passwordHash)) := transact_read _ _ _

theorem user_answer (w : World) (db : Db) : (exec argon2 w (.getUser username) db).1 =
    readIn w ((db.users.find? username).map (User.ofRow w.now)) := transact_read _ _ _

theorem verdict_refused (refused : Refused argon2 username password here) :
    argon2.verifyPassword (hashFor username (here 0).2) password = false ∨
      (((((here 2).2.users.find? username).map (User.ofRow (here 2).1.now)).filter (·.deactivatedAt.isNone)).isSome =
        false) := by
  rw [active_of_getUser]
  cases fits : argon2.verifyPassword (hashFor username (here 0).2) password with
  | false => exact .inl rfl
  | true => exact .inr (refused 0 2 fits)

theorem checkPassword_alike (same : SameAttempts here there) (refused : Refused argon2 username password here)
    (refused' : Refused argon2 username password there) :
    Alike (exec argon2) SameLook here there (checkPassword state headers username ip password)
      (checkPassword state headers username ip password) := by
  refine ⟨_, _, rfl, rfl, ?_⟩
  rw [hash_answer, hash_answer, (same 0).1]
  rcases readIn_cases (there 0).1 with answers | ⟨error, fails⟩
  · rw [answers, answers]
    refine ⟨_, _, rfl, ⟨_, rfl⟩, _, _, rfl, rfl, ?_⟩
    rw [user_answer, user_answer, (same 2).1]
    rcases readIn_cases (there 2).1 with answers | ⟨error, fails⟩
    · rw [answers, answers]
      have mine := verdict_refused refused
      rw [(same 2).1] at mine
      exact concludeLogin_alike mine (verdict_refused refused')
    · rw [fails, fails]
      rfl
  · rw [fails, fails]
    rfl

theorem countIpAndCheck_alike (same : SameAttempts here there) (refused : Refused argon2 username password here)
    (refused' : Refused argon2 username password there) (start : DateTime) (userFailures : Nat) :
    Alike (exec argon2) SameLook here there (countIpAndCheck state headers username ip password start userFailures)
      (countIpAndCheck state headers username ip password start userFailures) := by
  refine ask_alike rfl (countIp_same same ip start) fun failures => ?_
  cases failures with
  | error error => rfl
  | ok failures =>
      simp only [ofExcept_ok, ret_bind]
      cases (LockoutPolicy.default.evaluate userFailures failures).retryAfterSecs with
      | some retryAfter => rfl
      | none => exact checkPassword_alike same.later refused.later refused'.later

theorem countUser_alike (same : SameAttempts here there) (refused : Refused argon2 username password here)
    (refused' : Refused argon2 username password there) (start : DateTime) :
    Alike (exec argon2) SameLook here there
      (countUserFailures username start >>= countIpAndCheck state headers username ip password start)
      (countUserFailures username start >>= countIpAndCheck state headers username ip password start) := by
  unfold countUserFailures
  cases username.isEmpty with
  | true => exact countIpAndCheck_alike same refused refused' start 0
  | false =>
      refine ask_alike rfl (countUser_same same username start) fun failures => ?_
      cases failures with
      | error error => rfl
      | ok failures => exact countIpAndCheck_alike same.later refused.later refused'.later start failures

end Login

/-- Where nobody else sees the difference either, two logins for one user name that are both refused give the same
response, and make the same calls but for the hash that the password is checked against. -/
theorem refused_logins_look_alike (argon2 : Argon2) (state : AppState) (peer : Option String) (headers : HeaderMap)
    (body : LoginBody) (here there : Nat → World × Db) (same : SameAttempts here there)
    (refused : Refused argon2 (Text.trim body.username) body.password here)
    (refused' : Refused argon2 (Text.trim body.username) body.password there) :
    (handleLogin state peer headers (some body)).observe (exec argon2) here =
        (handleLogin state peer headers (some body)).observe (exec argon2) there ∧
      List.Forall₂ SameLook ((handleLogin state peer headers (some body)).trace (exec argon2) here)
        ((handleLogin state peer headers (some body)).trace (exec argon2) there) := by
  suffices alike : Alike (exec argon2) SameLook here there (handleLogin state peer headers (some body))
      (handleLogin state peer headers (some body)) from ⟨alike.observe, alike.trace⟩
  rw [handleLogin_eq]
  generalize Text.trim body.username = username at refused refused'
  generalize extractClientIp headers peer state.trustProxyHeaders = ip
  refine ask_alike rfl (congrArg World.now (same 0).1) fun (now : UtcNow) => ?_
  cases now.instant.sub LockoutPolicy.default.window with
  | none => rfl
  | some start =>
      simp only [ofOption_some, ret_bind]
      exact countUser_alike same.later refused.later refused'.later start

theorem unknown_root_looks_known :
    (handleLogin localState none [] (some ⟨"root", "wrong horse"⟩)).observe (exec plainArgon2)
        (fun _ => (noonWorld 0, Db.empty)) =
      (handleLogin localState none [] (some ⟨"root", "wrong horse"⟩)).observe (exec plainArgon2)
        (fun _ => (noonWorld 0, rootDb)) := by
  have wrong : ¬ plainArgon2.verifyPassword (hashFor (Text.trim "root") rootDb) "wrong horse" = true := by decide +kernel
  exact (refused_logins_look_alike plainArgon2 localState none [] ⟨"root", "wrong horse"⟩ (fun _ => (noonWorld 0, Db.empty))
    (fun _ => (noonWorld 0, rootDb)) (fun _ => ⟨rfl, rfl⟩) (fun _ _ _ => rfl) fun _ _ fits => absurd fits wrong).1

end Errex.Proof.Accounts
