import Errex.Foundation.SlidingWindow
import Errex.Model.Api
import Errex.Proof.Frame

/-!
# The lockout

A login counts the recorded failures of its user name and of its address before it checks the
password, and records its own failure after. When no two logins of one name or address overlap
between the two, the failures of that name or address keep to the policy in any window
(`run_bounds_failures`).
-/

namespace Errex.Proof.Accounts
open Foundation Foundation.SlidingWindow Calendar Model Store Auth Process

inductive LockoutKey where
  | user (username : String)
  | ip (ip : String)
  deriving DecidableEq

namespace LockoutKey

def limit : LockoutKey → Nat
  | .user _ => LockoutPolicy.default.userThreshold
  | .ip _ => LockoutPolicy.default.ipThreshold

def covers (key : LockoutKey) (username : Option String) (ip : String) : Bool :=
  match key with
  | .user name => username == some name
  | .ip addr => ip == addr

def recorded (key : LockoutKey) (start : DateTime) (db : Db) : Nat :=
  db.attempts.countP fun row => key.covers row.username row.ip && recentFailure start row

end LockoutKey

def windowNanos : Int := LockoutPolicy.default.window.nanos

/-! ## The calls of a login -/

section Kinds

variable (key : LockoutKey)

def countsFrom : Call → Option DateTime
  | .countRecentFailuresForUsername username start => if key = .user username then some start else none
  | .countRecentFailuresForIp ip start => if key = .ip ip then some start else none
  | _ => none

def verifies : Call → Bool
  | .verifyPassword _ _ => true
  | _ => false

def prunes : Call → Bool
  | .pruneAuthAttemptsOlderThan _ => true
  | _ => false

def writesLedger : Call → Bool
  | .recordAttempt username ip success => !success && key.covers username ip
  | c => prunes c

/-- The login is past its count and the check of the password, or was refused. -/
def Spent (p : Handler Response) : Prop :=
  p.Calls fun c => countsFrom key c = none ∧ verifies c = false ∧ prunes c = false

def Failing : Handler Response → Prop
  | .call (.getUser _) resume =>
      (∀ user, Failing (resume (.ok user))) ∧ ∀ error, Spent key (resume (.error error))
  | .call (.recordAttempt username ip success) resume =>
      success = false ∧ key.covers username ip ∧ ∀ reply, Spent key (resume reply)
  | _ => False

def Trying : Handler Response → Prop
  | .call (.verifyPassword _ _) resume => Failing key (resume false) ∧ Spent key (resume true)
  | .call c resume => countsFrom key c = none ∧ writesLedger key c = false ∧ ∀ reply, Trying (resume reply)
  | _ => True

def Counting (now : UtcNow) : Handler Response → Prop
  | .call c resume => verifies c = false ∧ writesLedger key c = false ∧
      match countsFrom key c with
      | some start => start.nanos + windowNanos = now.instant.nanos ∧ ∀ argon2 w db,
          if key.recorded start db < key.limit then Trying key (resume (exec argon2 w c db).1)
          else Spent key (resume (exec argon2 w c db).1)
      | none => ∀ reply, Counting now (resume reply)
  | _ => True

def Starting : Handler Response → Prop
  | .call .utcNow resume => ∀ now : UtcNow, Counting key now (resume now)
  | .call _ _ => False
  | _ => True

def Foreign (p : Handler Response) : Prop :=
  p.Calls fun c => countsFrom key c = none ∧ writesLedger key c = false

/-- The login is past its count and may still record a failure. -/
def Overlaps (p : Handler Response) : Prop :=
  p.Calls (fun c => countsFrom key c = none) ∧ ¬ p.Calls fun c => writesLedger key c = false

end Kinds

/-! ## The handler -/

def concludeLogin (state : AppState) (headers : HeaderMap) (username ip : String) (verified : Bool)
    (user : Option User) : Handler Response := do
  let userExistsActive := (user.filter (·.deactivatedAt.isNone)).isSome
  if verified = false ∨ userExistsActive = false then
    ask (.recordAttempt (if username.isEmpty then none else some username) ip false)
    return .text 401 "invalid credentials"
  ask (.recordAttempt (some username) ip true)
  ask (.touchUserLogin username (some ip))
  let id ← ask .generateSessionId
  let ua := extractUserAgent headers
  let _ ← ofExcept (← ask (.createSession id username (some ip) ua))
  let user ← ofOption (← ofExcept (← ask (.getUser username)))
  withCookie (.json 200 (.identity user.username user.role)) (buildSessionCookie id state.devMode)

def checkPassword (state : AppState) (headers : HeaderMap) (username ip password : String) : Handler Response := do
  let storedHash := (← ofExcept (← ask (.getUserPasswordHash username))).getD garbageHash
  let verified : Bool ← ask (.verifyPassword storedHash password)
  let user ← ofExcept (← ask (.getUser username))
  concludeLogin state headers username ip verified user

def countIpAndCheck (state : AppState) (headers : HeaderMap) (username ip password : String) (start : DateTime)
    (userFailures : Nat) : Handler Response := do
  let ipFailures ← ofExcept (← ask (.countRecentFailuresForIp ip start))
  match (LockoutPolicy.default.evaluate userFailures ipFailures).retryAfterSecs with
  | some retryAfter => return tooManyAttempts retryAfter
  | none => checkPassword state headers username ip password

theorem handleLogin_eq (state : AppState) (peer : Option String) (headers : HeaderMap) (body : LoginBody) :
    handleLogin state peer headers (some body) = (do
      let username := Text.trim body.username
      let ip := extractClientIp headers peer state.trustProxyHeaders
      let now : UtcNow ← ask .utcNow
      let start ← ofOption (now.instant.sub LockoutPolicy.default.window)
      let userFailures ← countUserFailures username start
      countIpAndCheck state headers username ip body.password start userFailures) := rfl

theorem evaluate_allows_iff (userFailures ipFailures : Nat) :
    (LockoutPolicy.default.evaluate userFailures ipFailures).retryAfterSecs = none ↔
      userFailures < LockoutPolicy.default.userThreshold ∧ ipFailures < LockoutPolicy.default.ipThreshold := by
  unfold LockoutPolicy.evaluate
  split_ifs <;> simp [LockoutDecision.retryAfterSecs] <;> omega

section Login

variable {key : LockoutKey} {state : AppState} {headers : HeaderMap} {username ip password : String}

theorem concludeLogin_calls {allowed : Call → Prop} (verified : Bool) (user : Option User)
    (refuse : allowed (.recordAttempt (if username.isEmpty then none else some username) ip false))
    (welcome : allowed (.recordAttempt (some username) ip true)) (touch : allowed (.touchUserLogin username (some ip)))
    (draw : allowed .generateSessionId) (session : ∀ id ua, allowed (.createSession id username (some ip) ua))
    (read : allowed (.getUser username)) :
    (concludeLogin state headers username ip verified user).Calls allowed := by
  unfold concludeLogin
  dsimp only
  split_ifs
  · exact ⟨refuse, fun _ => trivial⟩
  · exact ⟨refuse, fun _ => trivial⟩
  · refine ⟨welcome, fun _ => ⟨touch, fun _ => ⟨draw, fun id => ⟨session id _, fun created => ?_⟩⟩⟩⟩
    cases created with
    | error error => trivial
    | ok created =>
        refine ⟨read, fun user => ?_⟩
        rcases user with error | _ | user
        · trivial
        · trivial
        · show (withCookie _ _).Calls _
          unfold withCookie
          cases HeaderValue.fromStr (buildSessionCookie id state.devMode) <;> trivial

theorem concludeLogin_spent (verified : Bool) (user : Option User) :
    Spent key (concludeLogin state headers username ip verified user) :=
  concludeLogin_calls verified user ⟨rfl, rfl, rfl⟩ ⟨rfl, rfl, rfl⟩ ⟨rfl, rfl, rfl⟩ ⟨rfl, rfl, rfl⟩
    (fun _ _ => ⟨rfl, rfl, rfl⟩) ⟨rfl, rfl, rfl⟩

theorem checkPassword_trying
    (own : key.covers (if username.isEmpty then none else some username) ip = true) :
    Trying key (checkPassword state headers username ip password) := by
  refine ⟨rfl, rfl, fun hash => ?_⟩
  cases hash with
  | error error => trivial
  | ok hash =>
      refine ⟨⟨fun user => ?_, fun error => trivial⟩, ⟨rfl, rfl, rfl⟩, fun user => ?_⟩
      · show Failing key (concludeLogin state headers username ip false user)
        simp only [concludeLogin, true_or, if_true]
        exact ⟨rfl, own, fun _ => trivial⟩
      · cases user with
        | error error => trivial
        | ok user => exact concludeLogin_spent true user

theorem checkPassword_foreign
    (other : key.covers (if username.isEmpty then none else some username) ip = false) :
    Foreign key (checkPassword state headers username ip password) := by
  refine ⟨⟨rfl, rfl⟩, fun hash => ?_⟩
  cases hash with
  | error error => trivial
  | ok hash =>
      refine ⟨⟨rfl, rfl⟩, fun verified => ⟨⟨rfl, rfl⟩, fun user => ?_⟩⟩
      cases user with
      | error error => trivial
      | ok user =>
          refine concludeLogin_calls verified user ⟨rfl, ?_⟩ ⟨rfl, rfl⟩ ⟨rfl, rfl⟩ ⟨rfl, rfl⟩ (fun _ _ => ⟨rfl, rfl⟩) ⟨rfl, rfl⟩
          exact other

/-! ### The counts -/

theorem countUser_answer {argon2 : Argon2} {w : World} {db : Db} {start : DateTime} {n : Nat}
    (answer : (exec argon2 w (.countRecentFailuresForUsername username start) db).1 = .ok n) :
    n = (LockoutKey.user username).recorded start db :=
  (Prod.mk.inj (Except.ok.inj (transact_ok answer))).1.symm

theorem countIp_answer {argon2 : Argon2} {w : World} {db : Db} {start : DateTime} {n : Nat}
    (answer : (exec argon2 w (.countRecentFailuresForIp ip start) db).1 = .ok n) :
    n = (LockoutKey.ip ip).recorded start db :=
  (Prod.mk.inj (Except.ok.inj (transact_ok answer))).1.symm

abbrev Own (key : LockoutKey) (username ip : String) : Prop :=
  key.covers (if username.isEmpty then none else some username) ip = true

variable {start : DateTime}

theorem decide_trying (own : Own key username ip) (userFailures ipFailures : Nat) : Trying key
    (match (LockoutPolicy.default.evaluate userFailures ipFailures).retryAfterSecs with
      | some retryAfter => pure (tooManyAttempts retryAfter)
      | none => checkPassword state headers username ip password : Handler Response) := by
  split
  · trivial
  · exact checkPassword_trying own

theorem decide_spent {userFailures ipFailures : Nat}
    (blocked : ¬ (userFailures < LockoutPolicy.default.userThreshold ∧ ipFailures < LockoutPolicy.default.ipThreshold)) :
    Spent key (match (LockoutPolicy.default.evaluate userFailures ipFailures).retryAfterSecs with
      | some retryAfter => pure (tooManyAttempts retryAfter)
      | none => checkPassword state headers username ip password : Handler Response) := by
  split
  · trivial
  · rename_i allows
    exact absurd ((evaluate_allows_iff userFailures ipFailures).mp allows) blocked

theorem countIpAndCheck_user {name : String} (own : Own (.user name) username ip) (userFailures : Nat) :
    (userFailures < LockoutPolicy.default.userThreshold →
      Trying (.user name) (countIpAndCheck state headers username ip password start userFailures)) ∧
    (¬ userFailures < LockoutPolicy.default.userThreshold →
      Spent (.user name) (countIpAndCheck state headers username ip password start userFailures)) := by
  refine ⟨fun few => ⟨rfl, rfl, fun reply => ?_⟩, fun many => ⟨⟨rfl, rfl, rfl⟩, fun reply => ?_⟩⟩
  · cases reply with
    | error error => trivial
    | ok ipFailures => exact decide_trying own userFailures ipFailures
  · cases reply with
    | error error => trivial
    | ok ipFailures => exact decide_spent fun allows => many allows.1

theorem countIpAndCheck_ip {now : UtcNow} (window : start.nanos + windowNanos = now.instant.nanos) (userFailures : Nat) :
    Counting (.ip ip) now (countIpAndCheck state headers username ip password start userFailures) := by
  have own : Own (.ip ip) username ip := beq_self_eq_true ip
  unfold countIpAndCheck
  rw [ask_bind, Counting]
  simp only [countsFrom, if_true]
  refine ⟨rfl, rfl, window, fun argon2 w db => ?_⟩
  cases answer : (exec argon2 w (.countRecentFailuresForIp ip start) db).1 with
  | error error => split_ifs <;> trivial
  | ok ipFailures =>
      rw [← countIp_answer answer]
      split_ifs with few
      · exact decide_trying own userFailures ipFailures
      · exact decide_spent fun allows => few allows.2

theorem countIpAndCheck_foreign (other : ¬ Own key username ip) (userFailures : Nat)
    (apart : key ≠ .ip ip) :
    Foreign key (countIpAndCheck state headers username ip password start userFailures) := by
  have quiet : countsFrom key (.countRecentFailuresForIp ip start) = none := if_neg apart
  refine ⟨⟨quiet, rfl⟩, fun reply => ?_⟩
  cases reply with
  | error error => trivial
  | ok ipFailures =>
      show Foreign key (match (LockoutPolicy.default.evaluate userFailures ipFailures).retryAfterSecs with
        | some retryAfter => pure (tooManyAttempts retryAfter)
        | none => checkPassword state headers username ip password : Handler Response)
      split
      · trivial
      · exact checkPassword_foreign (by simpa using other)

theorem countUserFailures_bind (f : Nat → Handler Response) :
    (countUserFailures username start >>= f) =
      if username.isEmpty then f 0
      else .call (.countRecentFailuresForUsername username start) fun reply => ofExcept reply >>= f := by
  unfold countUserFailures
  split_ifs <;> rfl

theorem handleLogin_starting {peer : Option String} {body : LoginBody}
    (own : Own key (Text.trim body.username) (extractClientIp headers peer state.trustProxyHeaders)) :
    Starting key (handleLogin state peer headers (some body)) := by
  rw [handleLogin_eq]
  intro now
  show Counting key now (ofOption (now.instant.sub LockoutPolicy.default.window) >>= _)
  cases sub : now.instant.sub LockoutPolicy.default.window with
  | none => trivial
  | some start =>
      have window : start.nanos + windowNanos = now.instant.nanos := by
        unfold DateTime.sub at sub
        split_ifs at sub
        obtain rfl := Option.some.inj sub
        exact Int.sub_add_cancel _ _
      rw [ofOption_some, ret_bind, countUserFailures_bind]
      cases key with
      | user name =>
          have named : (Text.trim body.username).isEmpty = false ∧ Text.trim body.username = name := by
            by_cases empty : (Text.trim body.username).isEmpty = true
            · rw [Own, if_pos empty] at own
              cases own
            · rw [Own, if_neg empty] at own
              exact ⟨by simpa using empty, by simpa [LockoutKey.covers] using own⟩
          obtain ⟨nonempty, rfl⟩ := named
          rw [if_neg (by rw [nonempty]; decide), Counting]
          simp only [countsFrom, if_true]
          refine ⟨rfl, rfl, window, fun argon2 w db => ?_⟩
          cases answer : (exec argon2 w (.countRecentFailuresForUsername (Text.trim body.username) start) db).1 with
          | error error => split_ifs <;> trivial
          | ok userFailures =>
              rw [← countUser_answer answer]
              split_ifs with few
              · exact (countIpAndCheck_user own userFailures).1 few
              · exact (countIpAndCheck_user own userFailures).2 few
      | ip addr =>
          obtain rfl : extractClientIp headers peer state.trustProxyHeaders = addr := beq_iff_eq.mp own
          split_ifs
          · exact countIpAndCheck_ip window 0
          · refine ⟨rfl, rfl, fun reply => ?_⟩
            cases reply with
            | error error => trivial
            | ok userFailures => exact countIpAndCheck_ip window userFailures

theorem handleLogin_foreign {peer : Option String} {body : LoginBody}
    (other : ¬ Own key (Text.trim body.username) (extractClientIp headers peer state.trustProxyHeaders)) :
    Foreign key (handleLogin state peer headers (some body)) := by
  rw [handleLogin_eq]
  refine ⟨⟨rfl, rfl⟩, fun now => ?_⟩
  show Foreign key (ofOption (now.instant.sub LockoutPolicy.default.window) >>= _)
  cases now.instant.sub LockoutPolicy.default.window with
  | none => trivial
  | some start =>
      have apart : key ≠ .ip (extractClientIp headers peer state.trustProxyHeaders) := by
        rintro rfl
        exact other (beq_self_eq_true _)
      rw [ofOption_some, ret_bind, countUserFailures_bind]
      refine iteInduction (motive := Foreign key) (fun _ => countIpAndCheck_foreign other 0 apart) fun nonempty => ?_
      refine ⟨⟨if_neg ?_, rfl⟩, fun reply => ?_⟩
      · rintro rfl
        exact other (by simp [Own, LockoutKey.covers, nonempty])
      · cases reply with
        | error error => trivial
        | ok userFailures => exact countIpAndCheck_foreign other userFailures apart

end Login

/-! ## Stages -/

section Stages

variable {key : LockoutKey} {p : Handler Response} {c : Call} {resume : c.Reply → Handler Response}

theorem calls_split {a b : Call → Prop} (both : p.Calls fun c => a c ∧ b c) : p.Calls a ∧ p.Calls b :=
  ⟨both.imp_of_and both fun _ holds _ => holds.1, both.imp_of_and both fun _ holds _ => holds.2⟩

theorem Spent.past (spent : Spent key p) : p.Calls fun c => countsFrom key c = none := (calls_split spent).1

theorem Failing.past (failing : Failing key p) : p.Calls fun c => countsFrom key c = none := by
  induction p with
  | call c resume ih =>
      cases c
      case getUser username =>
        refine ⟨rfl, fun reply => ?_⟩
        cases reply with
        | ok user => exact ih _ (failing.1 user)
        | error error => exact (failing.2 error).past
      case recordAttempt username ip success => exact ⟨rfl, fun reply => (failing.2.2 reply).past⟩
      all_goals exact failing.elim
  | _ => exact failing.elim

theorem Failing.overlaps (failing : Failing key p) : Overlaps key p := by
  refine ⟨failing.past, fun quiet => ?_⟩
  induction p with
  | call c resume ih =>
      cases c
      case getUser username => exact ih (.ok none) (failing.1 none) (quiet.2 _)
      case recordAttempt username ip success =>
        have written : writesLedger key (.recordAttempt username ip success) = true := by
          simp [writesLedger, failing.1, failing.2.1]
        exact absurd (written.symm.trans quiet.1) (by decide)
      all_goals exact failing.elim
  | _ => exact failing.elim

theorem Trying.past (trying : Trying key p) : p.Calls fun c => countsFrom key c = none := by
  induction p with
  | call c resume ih =>
      by_cases check : verifies c
      · cases c <;> try cases check
        refine ⟨rfl, fun verified => ?_⟩
        cases verified with
        | false => exact trying.1.past
        | true => exact trying.2.past
      · have other : countsFrom key c = none ∧ writesLedger key c = false ∧ ∀ reply, Trying key (resume reply) := by
          cases c <;> first | exact trying | exact absurd rfl check
        exact ⟨other.1, fun reply => ih reply (other.2.2 reply)⟩
  | _ => trivial

theorem Counting.not_overlaps {now : UtcNow} (counting : Counting key now p) : ¬ Overlaps key p := by
  rintro ⟨past, writes⟩
  apply writes
  clear writes
  induction p with
  | call c resume ih =>
      rw [Counting, past.1] at counting
      obtain ⟨-, quiet, rest⟩ := counting
      exact ⟨quiet, fun reply => ih reply (rest reply) (past.2 reply)⟩
  | _ => trivial

theorem Starting.not_overlaps (starting : Starting key p) : ¬ Overlaps key p := by
  rintro ⟨past, writes⟩
  cases p with
  | call c resume =>
      cases c
      case utcNow =>
        apply writes
        refine ⟨rfl, fun now => ?_⟩
        by_contra later
        exact (starting now).not_overlaps ⟨past.2 now, later⟩
      all_goals exact starting.elim
  | _ => exact writes trivial

theorem Foreign.not_overlaps (foreign : Foreign key p) : ¬ Overlaps key p := fun overlaps =>
  overlaps.2 (calls_split foreign).2

theorem overlaps_before {reply : c.Reply} (past : (Process.call c resume : Handler Response).Calls fun c => countsFrom key c = none)
    (overlaps : Overlaps key (resume reply)) : Overlaps key (.call c resume) :=
  ⟨past, fun quiet => overlaps.2 (quiet.2 reply)⟩

end Stages

/-! ## The ledger -/

section Ledger

variable {argon2 : Argon2} {key : LockoutKey} {w : World} {c : Call} {db : Db} {start : DateTime}

theorem recorded_append (row : AttemptRow) : key.recorded start { db with attempts := db.attempts ++ [row] } =
    key.recorded start db + if key.covers row.username row.ip && recentFailure start row then 1 else 0 := by
  simp only [LockoutKey.recorded, List.countP_append, List.countP_singleton]

theorem exec_recordAttempt (argon2 : Argon2) (w : World) (db : Db) (username : Option String) (ip : String) (success : Bool) :
    (exec argon2 w (.recordAttempt username ip success) db).2 = db ∧ (∃ error, w.fault = some (.before error)) ∨
      (exec argon2 w (.recordAttempt username ip success) db).2 =
        { db with attempts := db.attempts ++ [⟨username, ip, w.now.instant.toRfc3339, success⟩] } := by
  simp only [exec, bestEffort, transact, recordAttempt, Transaction.execute_run]
  rcases fault : w.fault with _ | before | after
  · exact .inr rfl
  · exact .inl ⟨rfl, _, rfl⟩
  · exact .inr rfl

theorem recorded_exec (quiet : writesLedger key c = false) :
    key.recorded start (exec argon2 w c db).2 = key.recorded start db := by
  by_cases writes : writes c .attempts = false
  · rw [LockoutKey.recorded, (exec_frame argon2 w c db).attempts writes, LockoutKey.recorded]
  · cases c <;> first | exact absurd rfl writes | skip
    case recordAttempt username ip success =>
      rcases exec_recordAttempt argon2 w db username ip success with ⟨lost, -⟩ | written
      · rw [lost]
      · rw [written, recorded_append]
        have other : (success = true ∨ key.covers username ip = false) := by
          cases success
          · exact .inr (by simpa [writesLedger, prunes] using quiet)
          · exact .inl rfl
        rcases other with success | other <;> simp [recentFailure, *]
    case pruneAuthAttemptsOlderThan cutoff => cases quiet

theorem recorded_record {username : Option String} {ip : String} (covers : key.covers username ip = true)
    (heeded : ∀ error, w.fault ≠ some (.before error)) (four : FourDigitYear start.day)
    (year : FourDigitYear w.now.instant.day) (started : start.nanos ≤ w.now.instant.nanos) :
    key.recorded start (exec argon2 w (.recordAttempt username ip false) db).2 = key.recorded start db + 1 := by
  rcases exec_recordAttempt argon2 w db username ip false with ⟨-, error, lost⟩ | written
  · exact absurd lost (heeded error)
  · have open_ : textLt w.now.instant.toRfc3339 start.toRfc3339 = false := by
      rw [← Bool.not_eq_true, toRfc3339_lt_iff year four]
      omega
    rw [written, recorded_append]
    simp [covers, recentFailure, open_]

end Ledger

/-! ## Runs -/

inductive Stage (key : LockoutKey) (clock : Int) (db : Db) (p : Handler Response) : Prop
  | starting (starts : Starting key p)
  | counting (now : UtcNow) (year : FourDigitYear now.instant.day) (read : now.instant.nanos ≤ clock)
      (counts : Counting key now p)
  | trying (start : DateTime) (year : FourDigitYear start.day) (read : start.nanos + windowNanos ≤ clock)
      (tries : Trying key p) (few : Overlaps key p → key.recorded start db < key.limit)
  | failing (fails : Failing key p)
  | spent (ends : Spent key p)

def ownRequest (state : AppState) (key : LockoutKey) : Request → Bool
  | .login peer headers (some body) =>
      let username := Text.trim body.username
      key.covers (if username.isEmpty then none else some username)
        (extractClientIp headers peer state.trustProxyHeaders)
  | _ => false

def failure (argon2 : Argon2) (state : AppState) (key : LockoutKey) (requests : List Request) (s : Serving)
    (turn : Nat × World) : List Int :=
  match s.pool[turn.1]?, requests[turn.1]? with
  | some (.call (.verifyPassword storedHash plain) _), some request =>
      if ownRequest state key request && !argon2.verifyPassword storedHash plain then [turn.2.now.instant.nanos]
      else []
  | _, _ => []

def loses (w : World) : Call → Bool
  | .getUser _ => w.fault.isSome
  | .recordAttempt _ _ _ =>
      match w.fault with
      | some (.before _) => true
      | _ => false
  | _ => false

/-- No login counts while another one of the key is past its count and may still record a failure, and
no such login loses its record. The clock reads a year of four digits. -/
structure SingleFile (key : LockoutKey) (s : Serving) (turn : Nat × World) : Prop where
  year : FourDigitYear turn.2.now.instant.day
  apart : ∀ c resume, s.pool[turn.1]? = some (.call c resume) → countsFrom key c ≠ none →
    ∀ j q, j ≠ turn.1 → s.pool[j]? = some q → ¬ Overlaps key q
  heeded : ∀ c resume, s.pool[turn.1]? = some (.call c resume) → Overlaps key (.call c resume) →
    loses turn.2 c = false

structure Capped (state : AppState) (key : LockoutKey) (requests : List Request) (clock : Int) (past : List Int)
    (s : Serving) : Prop where
  bounded : Bounded windowNanos key.limit past
  past_le : ∀ t ∈ past, t ≤ clock
  each : ∀ (i : Nat) p, s.pool[i]? = some p → ∃ request, requests[i]? = some request ∧
    if ownRequest state key request then Stage key clock s.state p else Foreign key p
  alone : ∀ (i j : Nat) p q, s.pool[i]? = some p → s.pool[j]? = some q → Overlaps key p → Overlaps key q → i = j
  ledger : (∀ start : DateTime, FourDigitYear start.day → since start.nanos past ≤ key.recorded start s.state) ∨
    ∃ (i : Nat) (p : _), s.pool[i]? = some p ∧ Failing key p ∧
      ∀ start : DateTime, FourDigitYear start.day → since start.nanos past ≤ key.recorded start s.state + 1

section Step

variable {key : LockoutKey} {clock clock' : Int} {db db' : Db} {p : Handler Response}

theorem Stage.mono (stage : Stage key clock db p) (later : clock ≤ clock')
    (same : Overlaps key p → ∀ start, key.recorded start db' = key.recorded start db) : Stage key clock' db' p := by
  cases stage with
  | starting starts => exact .starting starts
  | counting now year read counts => exact .counting now year (read.trans later) counts
  | trying start year read tries few =>
      exact .trying start year (read.trans later) tries fun overlaps => same overlaps start ▸ few overlaps
  | failing fails => exact .failing fails
  | spent ends => exact .spent ends

theorem Stage.overlaps_of_writes {c : Call} {resume : c.Reply → Handler Response}
    (stage : Stage key clock db (.call c resume)) (writes : writesLedger key c = true) :
    Overlaps key (.call c resume) := by
  have some_ : ¬ (Process.call c resume : Handler Response).Calls fun c => writesLedger key c = false :=
    fun quiet => absurd (writes.symm.trans quiet.1) (by decide)
  cases stage with
  | starting starts => cases c <;> first | exact starts.elim | cases writes
  | counting now year read counts =>
      rw [Counting] at counts
      exact absurd (writes.symm.trans counts.2.1) (by decide)
  | trying start year read tries few => exact ⟨tries.past, some_⟩
  | failing fails => exact fails.overlaps
  | spent ends => exact ⟨ends.past, some_⟩

theorem windowStart_year {now : UtcNow} {start : DateTime} (year : FourDigitYear now.instant.day)
    (window : start.nanos + windowNanos = now.instant.nanos) : FourDigitYear start.day := by
  have length : windowNanos = 900000000000 := rfl
  have early : (-1 : Int) ≤ start.day := by
    have := now.epoch_le
    unfold DateTime.day DateTime.second nanosPerSecond secondsPerDay
    omega
  have order : start.day ≤ now.instant.day := by
    unfold DateTime.day DateTime.second nanosPerSecond secondsPerDay
    omega
  have first : yearOf (-1) = 1969 := by decide
  have := yearOf_mono early
  have := yearOf_mono order
  exact ⟨by omega, by have := year.2; omega⟩

theorem Failing.next (argon2 : Argon2) (db : Db) {w : World} {c : Call} {resume : c.Reply → Handler Response}
    (fails : Failing key (.call c resume)) (kept : loses w c = false) :
    Failing key (resume (exec argon2 w c db).1) ∨
      writesLedger key c = true ∧ Spent key (resume (exec argon2 w c db).1) := by
  cases c
  case getUser username =>
    have calm : w.fault = none := by simpa [loses] using kept
    have answer : (exec argon2 w (.getUser username) db).1 =
        .ok ((db.users.find? username).map (User.ofRow w.now)) := by
      simp only [exec, transact_calm calm, getUser, Transaction.read_run]
      rfl
    rw [answer]
    exact .inl (fails.1 _)
  case recordAttempt username ip success =>
    exact .inr ⟨by simp [writesLedger, fails.1, fails.2.1], fails.2.2 _⟩
  all_goals exact fails.elim

theorem Stage.tries {c : Call} {resume : c.Reply → Handler Response} (stage : Stage key clock db (.call c resume))
    (check : verifies c = true) : ∃ start : DateTime, FourDigitYear start.day ∧ start.nanos + windowNanos ≤ clock ∧
      Trying key (.call c resume) ∧ (Overlaps key (.call c resume) → key.recorded start db < key.limit) := by
  cases stage with
  | starting starts => cases c <;> first | exact starts.elim | cases check
  | counting now year read counts =>
      rw [Counting] at counts
      exact absurd (check.symm.trans counts.1) (by decide)
  | trying start year read tries few => exact ⟨start, year, read, tries, few⟩
  | failing fails => cases c <;> first | exact fails.elim | cases check
  | spent ends => exact absurd (check.symm.trans ends.1.2.1) (by decide)

theorem Stage.writes {c : Call} {resume : c.Reply → Handler Response} (stage : Stage key clock db (.call c resume))
    (writes : writesLedger key c = true) :
    ∃ username ip, c = .recordAttempt username ip false ∧ key.covers username ip = true := by
  have kept : prunes c = false := by
    cases stage with
    | starting starts => cases c <;> first | exact starts.elim | rfl
    | counting now year read counts =>
        rw [Counting] at counts
        exact absurd (writes.symm.trans counts.2.1) (by decide)
    | trying start year read tries few =>
        cases c <;> first | rfl | exact absurd (writes.symm.trans tries.2.1) (by decide)
    | failing fails => cases c <;> first | exact fails.elim | rfl
    | spent ends => exact ends.1.2.2
  cases c <;> first | exact absurd (writes.symm.trans kept) (by decide) | skip
  rename_i username ip success
  obtain ⟨rfl, covers⟩ : success = false ∧ key.covers username ip = true := by simpa [writesLedger] using writes
  exact ⟨username, ip, rfl, covers⟩

theorem Stage.next {argon2 : Argon2} {w : World} {c : Call} {resume : c.Reply → Handler Response}
    (stage : Stage key clock db (.call c resume)) (later : clock ≤ w.now.instant.nanos)
    (year : FourDigitYear w.now.instant.day)
    (heeded : Overlaps key (.call c resume) → loses w c = false) :
    Stage key w.now.instant.nanos (exec argon2 w c db).2 (resume (exec argon2 w c db).1) := by
  cases stage with
  | starting starts =>
      cases c
      case utcNow => exact .counting w.now year le_rfl (starts w.now)
      all_goals exact starts.elim
  | counting now read_year read counts =>
      rw [Counting] at counts
      obtain ⟨-, quiet, rest⟩ := counts
      cases counted : countsFrom key c with
      | none =>
          rw [counted] at rest
          exact .counting now read_year (read.trans later) (rest _)
      | some start =>
          rw [counted] at rest
          obtain ⟨window, decides⟩ := rest
          have decides := decides argon2 w db
          split_ifs at decides with few
          · refine .trying start (windowStart_year read_year window) (by omega) decides fun _ => ?_
            rwa [recorded_exec quiet]
          · exact .spent decides
  | trying start start_year read tries few =>
      by_cases check : verifies c
      · cases c <;> try cases check
        rename_i storedHash plain
        cases verified : argon2.verifyPassword storedHash plain with
        | false => exact .failing (by simpa only [exec, verified] using tries.1)
        | true => exact .spent (by simpa only [exec, verified] using tries.2)
      · have other : countsFrom key c = none ∧ writesLedger key c = false ∧ ∀ reply, Trying key (resume reply) := by
          cases c <;> first | exact tries | exact absurd rfl check
        refine .trying start start_year (read.trans later) (other.2.2 _) fun overlaps => ?_
        rw [recorded_exec other.2.1]
        exact few (overlaps_before tries.past overlaps)
  | failing fails =>
      rcases fails.next argon2 db (heeded fails.overlaps) with fails | ⟨-, ends⟩
      · exact .failing fails
      · exact .spent ends
  | spent ends => exact .spent (ends.2 _)

theorem Stage.overlaps_next {argon2 : Argon2} {w : World} {c : Call} {resume : c.Reply → Handler Response}
    (stage : Stage key clock db (.call c resume)) (overlaps : Overlaps key (resume (exec argon2 w c db).1)) :
    Overlaps key (.call c resume) ∨ countsFrom key c ≠ none := by
  cases stage with
  | starting starts =>
      cases c
      case utcNow => exact absurd overlaps (starts w.now).not_overlaps
      all_goals exact starts.elim
  | counting now read_year read counts =>
      rw [Counting] at counts
      by_cases counted : countsFrom key c = none
      · rw [counted] at counts
        exact absurd overlaps (counts.2.2 _).not_overlaps
      · exact .inr counted
  | trying start start_year read tries few => exact .inl (overlaps_before tries.past overlaps)
  | failing fails => exact .inl fails.overlaps
  | spent ends => exact .inl (overlaps_before ends.past overlaps)

end Step

section Guard

variable {argon2 : Argon2} {state : AppState} {key : LockoutKey} {requests : List Request} {clock : Int}
  {past : List Int} {s : Serving} {turn : Nat × World} {c : Call} {resume : c.Reply → Handler Response}

theorem Capped.wait {clock' : Int} (capped : Capped state key requests clock past s) (later : clock ≤ clock') :
    Capped state key requests clock' past s where
  bounded := capped.bounded
  past_le t mem := (capped.past_le t mem).trans later
  each i p at_i := by
    obtain ⟨request, asked, stage⟩ := capped.each i p at_i
    refine ⟨request, asked, ?_⟩
    split_ifs with own
    · rw [if_pos own] at stage
      exact stage.mono later fun _ _ => rfl
    · rwa [if_neg own] at stage
  alone := capped.alone
  ledger := capped.ledger

theorem Capped.overlaps_of_writes (capped : Capped state key requests clock past s)
    (next : s.pool[turn.1]? = some (.call c resume)) (writes : writesLedger key c = true) :
    Overlaps key (.call c resume) := by
  obtain ⟨request, -, stage⟩ := capped.each _ _ next
  split_ifs at stage
  · exact stage.overlaps_of_writes writes
  · exact absurd (writes.symm.trans stage.1.2) (by decide)

theorem Capped.pool_next (argon2 : Argon2) (capped : Capped state key requests clock past s) (file : SingleFile key s turn)
    (later : clock ≤ turn.2.now.instant.nanos) (next : s.pool[turn.1]? = some (.call c resume)) :
    let after := exec argon2 turn.2 c s.state
    (∀ (i : Nat) p, (s.pool.set turn.1 (resume after.1))[i]? = some p →
      ∃ request, requests[i]? = some request ∧
        if ownRequest state key request then Stage key turn.2.now.instant.nanos after.2 p else Foreign key p) ∧
    ∀ (i j : Nat) p q, (s.pool.set turn.1 (resume after.1))[i]? = some p →
      (s.pool.set turn.1 (resume after.1))[j]? = some q → Overlaps key p → Overlaps key q → i = j := by
  intro after
  obtain ⟨request, asked, stage⟩ := capped.each _ _ next
  have others_same : ∀ j q, j ≠ turn.1 → s.pool[j]? = some q → Overlaps key q →
      ∀ start, key.recorded start after.2 = key.recorded start s.state := by
    intro j q other at_j overlaps start
    by_cases writes : writesLedger key c = true
    · exact absurd (capped.alone _ _ _ _ at_j next overlaps (capped.overlaps_of_writes next writes)) other
    · exact recorded_exec (by simpa using writes)
  have before : ∀ j q, j ≠ turn.1 → s.pool[j]? = some q → Overlaps key (resume after.1) → ¬ Overlaps key q := by
    intro j q other at_j mine theirs
    split_ifs at stage
    · rcases stage.overlaps_next mine with overlapped | counted
      · exact other (capped.alone _ _ _ _ at_j next theirs overlapped)
      · exact file.apart c resume next counted j q other at_j theirs
    · exact absurd mine (show Foreign key (resume after.1) from stage.2 _).not_overlaps
  constructor
  · intro i p at_i
    rcases System.pool_after at_i with ⟨rfl, rfl⟩ | ⟨other, at_i⟩
    · refine ⟨request, asked, ?_⟩
      split_ifs with own
      · rw [if_pos own] at stage
        exact stage.next later file.year (file.heeded c resume next)
      · rw [if_neg own] at stage
        exact stage.2 _
    · obtain ⟨theirs, asked, stage⟩ := capped.each i p at_i
      refine ⟨theirs, asked, ?_⟩
      split_ifs with own
      · rw [if_pos own] at stage
        exact stage.mono later fun overlaps => others_same i p other at_i overlaps
      · rwa [if_neg own] at stage
  · intro i j p q at_i at_j mine theirs
    rcases System.pool_after at_i with ⟨rfl, rfl⟩ | ⟨other_i, at_i⟩
    · rcases System.pool_after at_j with ⟨rfl, rfl⟩ | ⟨other, at_j⟩
      · rfl
      · exact absurd theirs (before j q other at_j mine)
    · rcases System.pool_after at_j with ⟨rfl, rfl⟩ | ⟨other, at_j⟩
      · exact absurd mine (before i p other_i at_i theirs)
      · exact capped.alone i j p q at_i at_j mine theirs

theorem failure_cases (argon2 : Argon2) (state : AppState) (key : LockoutKey) {request : Request} (next : s.pool[turn.1]? = some (.call c resume))
    (asked : requests[turn.1]? = some request) :
    failure argon2 state key requests s turn = [] ∨
      ownRequest state key request = true ∧
        ∃ storedHash plain, c = .verifyPassword storedHash plain ∧ argon2.verifyPassword storedHash plain = false ∧
          failure argon2 state key requests s turn = [turn.2.now.instant.nanos] := by
  unfold failure
  cases c <;> simp only [next, asked, true_or]
  rename_i storedHash plain
  split_ifs with own
  · rw [Bool.and_eq_true, Bool.not_eq_true'] at own
    exact .inr ⟨own.1, storedHash, plain, rfl, own.2, rfl⟩
  · exact .inl rfl

theorem Capped.fail {storedHash plain : String} {resume : Bool → Handler Response}
    (capped : Capped state key requests clock past s) (later : clock ≤ turn.2.now.instant.nanos)
    (next : s.pool[turn.1]? = some (.call (.verifyPassword storedHash plain) resume))
    (stage : Stage key clock s.state (.call (.verifyPassword storedHash plain) resume)) :
    Bounded windowNanos key.limit (past ++ [turn.2.now.instant.nanos]) ∧ Failing key (resume false) ∧
      ∀ start : DateTime, FourDigitYear start.day →
        since start.nanos (past ++ [turn.2.now.instant.nanos]) ≤ key.recorded start s.state + 1 := by
  obtain ⟨start, year, read, tries, few⟩ := stage.tries rfl
  have fails : Failing key (resume false) := tries.1
  have overlaps := overlaps_before tries.past fails.overlaps
  -- a failure that waits for its record would be of another login that overlaps
  have ledger : ∀ start : DateTime, FourDigitYear start.day →
      since start.nanos past ≤ key.recorded start s.state := by
    rcases capped.ledger with ledger | ⟨i, p, at_i, waits, -⟩
    · exact ledger
    · obtain rfl := capped.alone _ _ _ _ at_i next waits.overlaps overlaps
      obtain rfl := Option.some.inj (at_i.symm.trans next)
      exact waits.elim
  refine ⟨?_, fails, ?_⟩
  · apply capped.bounded.append ((ledger start year).trans_lt (few overlaps))
    intro first inside
    omega
  · intro start year
    rw [since_append]
    exact Nat.add_le_add (ledger start year) since_singleton_le

theorem Capped.ledger_next (capped : Capped state key requests clock past s) (file : SingleFile key s turn)
    (later : clock ≤ turn.2.now.instant.nanos) (next : s.pool[turn.1]? = some (.call c resume)) :
    let after := exec argon2 turn.2 c s.state
    (∀ start : DateTime, FourDigitYear start.day → since start.nanos past ≤ key.recorded start after.2) ∨
      ∃ (i : Nat) (p : _), (s.pool.set turn.1 (resume after.1))[i]? = some p ∧ Failing key p ∧
        ∀ start : DateTime, FourDigitYear start.day → since start.nanos past ≤ key.recorded start after.2 + 1 := by
  intro after
  have inside : turn.1 < s.pool.length := (List.getElem?_eq_some_iff.mp next).1
  by_cases writes : writesLedger key c = true
  · have overlaps := capped.overlaps_of_writes next writes
    have kept := file.heeded c resume next overlaps
    obtain ⟨request, -, stage⟩ := capped.each _ _ next
    split_ifs at stage with own
    · obtain ⟨username, ip, rfl, covers⟩ := stage.writes writes
      have heeded : ∀ error, turn.2.fault ≠ some (.before error) := by
        intro error fault
        simp [loses, fault] at kept
      refine .inl fun start year => ?_
      rcases le_or_gt start.nanos turn.2.now.instant.nanos with started | before
      · have short : since start.nanos past ≤ key.recorded start s.state + 1 := by
          rcases capped.ledger with ledger | ⟨-, -, -, -, ledger⟩
          · exact (ledger start year).trans (Nat.le_succ _)
          · exact ledger start year
        exact short.trans_eq (recorded_record covers heeded year file.year started).symm
      · have none_ : since start.nanos past = 0 := since_eq_zero_iff.mpr fun t mem =>
          ((capped.past_le t mem).trans later).trans_lt before
        rw [none_]
        exact Nat.zero_le _
    · exact absurd (writes.symm.trans stage.1.2) (by decide)
  · have quiet : writesLedger key c = false := by simpa using writes
    have same : ∀ start, key.recorded start after.2 = key.recorded start s.state := fun _ => recorded_exec quiet
    simp only [same]
    rcases capped.ledger with ledger | ⟨i, p, at_i, waits, ledger⟩
    · exact .inl ledger
    · refine .inr ?_
      by_cases mine : i = turn.1
      · subst mine
        obtain rfl := Option.some.inj (at_i.symm.trans next)
        have kept := file.heeded c resume next waits.overlaps
        rcases waits.next argon2 s.state kept with waits | ⟨wrote, -⟩
        · exact ⟨turn.1, _, List.getElem?_set_self inside, waits, ledger⟩
        · exact absurd wrote writes
      · exact ⟨i, p, by rwa [List.getElem?_set_ne (Ne.symm mine)], waits, ledger⟩

theorem Capped.step (capped : Capped state key requests clock past s) (file : SingleFile key s turn)
    (later : clock ≤ turn.2.now.instant.nanos) :
    Capped state key requests turn.2.now.instant.nanos (past ++ failure argon2 state key requests s turn)
      (System.step (exec argon2) s turn) := by
  rcases at_turn : s.pool[turn.1]? with _ | p
  · simpa [failure, System.step, at_turn] using capped.wait later
  · cases p with
    | ret response => simpa [failure, System.step, at_turn] using capped.wait later
    | throw error => simpa [failure, System.step, at_turn] using capped.wait later
    | panic => simpa [failure, System.step, at_turn] using capped.wait later
    | call c resume =>
        have inside : turn.1 < s.pool.length := (List.getElem?_eq_some_iff.mp at_turn).1
        obtain ⟨each, alone⟩ := capped.pool_next argon2 file later at_turn
        have past_le : ∀ t ∈ past, t ≤ turn.2.now.instant.nanos := fun t mem => (capped.past_le t mem).trans later
        obtain ⟨request, asked, stage⟩ := capped.each _ _ at_turn
        rw [System.step_call at_turn]
        rcases failure_cases argon2 state key at_turn asked with
          none_ | ⟨own, storedHash, plain, rfl, failed, one⟩
        · rw [none_, List.append_nil]
          exact ⟨capped.bounded, past_le, each, alone, capped.ledger_next file later at_turn⟩
        · rw [if_pos own] at stage
          obtain ⟨bounded, fails, ledger⟩ := capped.fail later at_turn stage
          rw [one]
          refine ⟨bounded, ?_, each, alone, .inr ⟨turn.1, _, List.getElem?_set_self inside, ?_, ledger⟩⟩
          · intro t mem
            rcases List.mem_append.mp mem with old | new
            · exact past_le t old
            · exact (List.mem_singleton.mp new).le
          · simpa only [exec, failed] using fails

end Guard

structure Login where
  peer : Option String
  headers : HeaderMap
  body : Option LoginBody

def Login.request (login : Login) : Request := .login login.peer login.headers login.body

theorem Login.handle_starting (parsers : Webhook.Parsers) (state : AppState) (key : LockoutKey) (login : Login) :
    if ownRequest state key login.request then Starting key (login.request.handle parsers state)
    else Foreign key (login.request.handle parsers state) := by
  obtain ⟨peer, headers, _ | body⟩ := login
  · exact trivial
  · show if Own key (Text.trim body.username) (extractClientIp headers peer state.trustProxyHeaders) then
      Starting key (handleLogin state peer headers (some body))
      else Foreign key (handleLogin state peer headers (some body))
    split_ifs with own
    · exact handleLogin_starting own
    · exact handleLogin_foreign own

theorem Capped.start (parsers : Webhook.Parsers) (state : AppState) (key : LockoutKey) (db : Db) (logins : List Login) :
    Capped state key (logins.map Login.request) 0 [] (serve parsers state db (logins.map Login.request)) where
  bounded := Bounded.nil
  past_le _ mem := absurd mem List.not_mem_nil
  each i p at_i := by
    simp only [serve, List.getElem?_map, Option.map_map, Option.map_eq_some_iff] at at_i
    obtain ⟨login, at_login, rfl⟩ := at_i
    refine ⟨login.request, by simp [at_login], ?_⟩
    have starts := login.handle_starting parsers state key
    split_ifs with own
    · rw [if_pos own] at starts
      exact .starting starts
    · rwa [if_neg own] at starts
  alone i j p q at_i at_j mine := by
    simp only [serve, List.getElem?_map, Option.map_map, Option.map_eq_some_iff] at at_i
    obtain ⟨login, -, rfl⟩ := at_i
    have starts := login.handle_starting parsers state key
    split_ifs at starts
    · exact absurd mine starts.not_overlaps
    · exact absurd mine starts.not_overlaps
  ledger := .inl fun _ _ => Nat.zero_le _

/-- The failing checks for one user name, or one address, keep to the policy in any window. -/
theorem run_bounds_failures (argon2 : Argon2) (parsers : Webhook.Parsers) (state : AppState) (db : Db)
    (logins : List Login) (key : LockoutKey) (schedule : List (Nat × World))
    (ordered : schedule.Pairwise fun a b => a.2.now.instant.nanos ≤ b.2.now.instant.nanos)
    (permitted : System.Permits (exec argon2) (SingleFile key) (serve parsers state db (logins.map Login.request))
      schedule) :
    Bounded windowNanos key.limit
      ((serve parsers state db (logins.map Login.request)).history (exec argon2)
        (failure argon2 state key (logins.map Login.request)) schedule) := by
  obtain ⟨last, capped⟩ := System.run_history_clocked (fun w : World => w.now.instant.nanos)
    (Capped state key (logins.map Login.request)) (fun _ _ _ _ capped later file => capped.step file later)
    permitted ordered (fun turn _ => turn.2.now.epoch_le) (Capped.start parsers state key db logins)
  exact capped.bounded

def countsAlone (key : LockoutKey) (s : Serving) (turn : Nat × World) : Bool :=
  decide (FourDigitYear turn.2.now.instant.day) && turn.2.fault.isNone &&
    (s.nextCall turn).all fun c => (countsFrom key c).isNone || s.othersNext turn fun other => (countsFrom key other).isSome

theorem singleFile_of_countsAlone {key : LockoutKey} {s : Serving} {turn : Nat × World}
    (alone : countsAlone key s turn = true) : SingleFile key s turn := by
  rw [countsAlone, Bool.and_eq_true, Bool.and_eq_true, decide_eq_true_iff, Option.isNone_iff_eq_none] at alone
  obtain ⟨⟨year, calm⟩, alone⟩ := alone
  refine ⟨year, ?_, ?_⟩
  · intro c resume next counts j q other at_j overlaps
    have counts : (countsFrom key c).isNone = false := by simpa [Option.isSome_iff_ne_none] using counts
    rw [System.nextCall_eq next, Option.all_some, counts, Bool.false_or] at alone
    cases q with
    | call c' resume' =>
        have before := System.check_of_othersNext alone other at_j
        have later : countsFrom key c' = none := overlaps.1.1
        simp [later] at before
    | _ => exact overlaps.2 trivial
  · intro c resume _ _
    cases c <;> first | rfl | simp [loses, calm]

def wrongLogin : Login := ⟨some "10.0.0.1", [], some ⟨"root", "wrong"⟩⟩

theorem run_bounds_failures_interleaved :
    let turns : List (Nat × World) := [(0, noonWorld 0), (1, noonWorld 0)] ++ List.replicate 6 (0, noonWorld 0) ++
      List.replicate 6 (1, noonWorld 0)
    let failures := (serve anyParsers localState rootDb ([wrongLogin, wrongLogin].map Login.request)).history
      (exec plainArgon2) (failure plainArgon2 localState (.user "root") ([wrongLogin, wrongLogin].map Login.request)) turns
    failures = [noon.instant.nanos, noon.instant.nanos] ∧ Bounded windowNanos 5 failures := by
  intro turns failures
  have permitted : System.Permits (exec plainArgon2) (fun s turn => countsAlone (.user "root") s turn = true)
      (serve anyParsers localState rootDb ([wrongLogin, wrongLogin].map Login.request)) turns := by decide +kernel
  refine ⟨by decide +kernel, ?_⟩
  exact run_bounds_failures plainArgon2 anyParsers localState rootDb [wrongLogin, wrongLogin] (.user "root") turns
    (by decide +kernel) (permitted.mono fun _ _ alone => singleFile_of_countsAlone alone)

/-- Six logins count the failures before any of them records one. -/
theorem run_exceeds_limit :
    ¬ ∀ (argon2 : Argon2) (parsers : Webhook.Parsers) (state : AppState) (db : Db) (logins : List Login)
      (key : LockoutKey) (schedule : List (Nat × World)),
      schedule.Pairwise (fun a b => a.2.now.instant.nanos ≤ b.2.now.instant.nanos) →
      Bounded windowNanos key.limit
        ((serve parsers state db (logins.map Login.request)).history (exec argon2)
          (failure argon2 state key (logins.map Login.request)) schedule) := by
  intro keeps
  let turns (n : Nat) : List (Nat × World) := (List.range 6).flatMap fun i => List.replicate n (i, noonWorld 0)
  have bounded := keeps plainArgon2 anyParsers localState rootDb (List.replicate 6 wrongLogin) (.user "root")
    (turns 3 ++ turns 4) (by decide +kernel) noon.instant.nanos
  revert bounded
  decide +kernel

end Errex.Proof.Accounts
