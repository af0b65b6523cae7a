import Errex.Model.Http

/-!
# Signing in

`auth.rs` with the parts of `crypto.rs` and `lockout.rs` it uses: cookies, the auth gate, and the
setup, login and logout handlers.
-/

namespace Errex.Model.Auth
open Foundation Store Text Process

def cookieName : String := "errex_session"

def sessionTtlSecs : Nat := 30 * 24 * 60 * 60

def findSessionId : List String → Option String
  | [] => none
  | kv :: rest =>
      match splitOnce (trim kv) "=" with
      | none => findSessionId rest
      | some (k, v) =>
          if k = cookieName then
            let v := trimMatches '"' v
            if v.isEmpty then none else some v
          else findSessionId rest

def extractSessionId (headers : HeaderMap) : Option String := do
  let raw ← headers.text "cookie"
  findSessionId (split raw (· == ';'))

def buildSessionCookie (id : String) (devMode : Bool) : String :=
  let secure := if devMode then "" else "; Secure"
  s!"{cookieName}={id}; HttpOnly{secure}; SameSite=Strict; Path=/; Max-Age={sessionTtlSecs}"

def buildClearingCookie (devMode : Bool) : String :=
  let secure := if devMode then "" else "; Secure"
  s!"{cookieName}=; HttpOnly{secure}; SameSite=Strict; Path=/; Max-Age=0"

def extractClientIp (headers : HeaderMap) (peer : Option String) (trustProxyHeaders : Bool) : String :=
  let forwarded := if trustProxyHeaders then
      (headers.text "x-forwarded-for").bind fun xff =>
        let first := trim ((split xff (· == ',')).headD "")
        if first.isEmpty then none else some first
    else none
  forwarded.getD (peer.getD "unknown")

def extractUserAgent (headers : HeaderMap) : Option String := headers.text "user-agent"

def validatePasswordStrength (p : String) : Except String Unit :=
  if p.length < 12 then .error "password must be at least 12 characters"
  else if 256 < p.length then .error "password must be at most 256 characters"
  else .ok ()

structure LockoutPolicy where
  userThreshold : Nat
  ipThreshold : Nat
  window : Duration
  cooldown : Duration

def LockoutPolicy.default : LockoutPolicy where
  userThreshold := 5
  ipThreshold := 20
  window := ⟨900 * nanosPerSecond⟩
  cooldown := ⟨900 * nanosPerSecond⟩

inductive LockoutDecision where
  | allow
  | blockedByUser (retryAfterSecs : Int)
  | blockedByIp (retryAfterSecs : Int)
  deriving DecidableEq, Repr

def LockoutDecision.retryAfterSecs : LockoutDecision → Option Int
  | .allow => none
  | .blockedByUser secs => some secs
  | .blockedByIp secs => some secs

def LockoutPolicy.evaluate (policy : LockoutPolicy) (userFailures ipFailures : Nat) : LockoutDecision :=
  let cooldownSecs := max policy.cooldown.numSeconds 1
  if policy.userThreshold ≤ userFailures then .blockedByUser cooldownSecs
  else if policy.ipThreshold ≤ ipFailures then .blockedByIp cooldownSecs
  else .allow

def tooManyAttempts (retryAfter : Int) : Response :=
  (Response.text 429 "too many attempts — try again later").append "retry-after" (toString retryAfter)

structure AuthContext where
  session : Session
  role : Role
  deriving DecidableEq

def requireAuth (headers : HeaderMap) : Handler (Except Response AuthContext) :=
  match extractSessionId headers with
  | none => pure (.error (.text 401 "not signed in"))
  | some id => do
      match ← ask (.sessionForId id) with
      | .error _ => pure (.error (.text 500 "internal error"))
      | .ok none => pure (.error (.text 401 "session invalid"))
      | .ok (some (session, role, _deactivated)) => do
          ask (.touchSession session.id)
          pure (.ok ⟨session, role⟩)

def requireAdmin (headers : HeaderMap) : Handler (Except Response AuthContext) := do
  match ← requireAuth headers with
  | .error response => pure (.error response)
  | .ok ctx => pure (if ctx.role.isAdmin then .ok ctx else .error (.text 403 "admin role required"))

structure SetupBody where
  token : String
  username : String
  password : String

structure LoginBody where
  username : String
  password : String

def withCookie (response : Response) (cookie : String) : Handler Response := do
  let value ← ofOption (HeaderValue.fromStr cookie)
  pure (response.append "set-cookie" value)

def handleSetup (state : AppState) (peer : Option String) (headers : HeaderMap)
    (body : Option SetupBody) : Handler Response :=
  match body with
  | none => pure (.text 400 "missing body")
  | some body => do
      let users ← ofExcept (← ask .userCount)
      if 0 < users then
        return .text 409 "setup already complete"
      match state.setupToken with
      | none => return .text 503 "setup is disabled (set ERREX_ADMIN_TOKEN to enable)"
      | some expected => do
          let setupIp := extractClientIp headers peer state.trustProxyHeaders
          let policy := LockoutPolicy.default
          let now : UtcNow ← ask .utcNow
          let since ← ofOption (now.instant.sub policy.window)
          let ipFailures ← ofExcept (← ask (.countRecentFailuresForIp setupIp since))
          match (policy.evaluate 0 ipFailures).retryAfterSecs with
          | some retryAfter => return tooManyAttempts retryAfter
          | none => do
              if body.token ≠ expected then
                ask (.recordAttempt none setupIp false)
                return .text 401 "invalid setup token"
              let username := trim body.username
              if username.isEmpty ∨ 64 < username.utf8ByteSize then
                return .text 400 "username 1..=64 chars"
              match validatePasswordStrength body.password with
              | .error why => return .text 400 why
              | .ok () => do
                  match ← ask (.hashPassword body.password) with
                  | .error _ => return .text 500 "internal error"
                  | .ok hash => do
                      let _ ← ofExcept (← ask (.createUser username hash .admin))
                      let id ← ask .generateSessionId
                      let ip := extractClientIp headers peer state.trustProxyHeaders
                      let ua := extractUserAgent headers
                      let _ ← ofExcept (← ask (.createSession id username (some ip) ua))
                      ask (.touchUserLogin username (some ip))
                      withCookie (.json 201 (.identity username .admin)) (buildSessionCookie id state.devMode)

def garbageHash : String :=
  "$argon2id$v=19$m=19456,t=2,p=1$abcdefghijklmnopqrstuv$aaaaaaaaaaaaaaaaaaaaaaaaaaaaaaaaaaaaaaaaaaa"

def countUserFailures (username : String) (since : DateTime) : Handler Nat :=
  if username.isEmpty then pure 0
  else do ofExcept (← ask (.countRecentFailuresForUsername username since))

def handleLogin (state : AppState) (peer : Option String) (headers : HeaderMap)
    (body : Option LoginBody) : Handler Response :=
  match body with
  | none => pure (.text 400 "missing body")
  | some body => do
      let username := trim body.username
      let ip := extractClientIp headers peer state.trustProxyHeaders
      let policy := LockoutPolicy.default
      let now : UtcNow ← ask .utcNow
      let since ← ofOption (now.instant.sub policy.window)
      let userFailures ← countUserFailures username since
      let ipFailures ← ofExcept (← ask (.countRecentFailuresForIp ip since))
      match (policy.evaluate userFailures ipFailures).retryAfterSecs with
      | some retryAfter => return tooManyAttempts retryAfter
      | none => do
          let storedHash := (← ofExcept (← ask (.getUserPasswordHash username))).getD garbageHash
          let verified : Bool ← ask (.verifyPassword storedHash body.password)
          let user ← ofExcept (← ask (.getUser username))
          let userExistsActive := (user.filter (·.deactivatedAt.isNone)).isSome
          if verified = false ∨ userExistsActive = false then
            ask (.recordAttempt (if username.isEmpty then none else some username) ip false)
            return .text 401 "invalid credentials"
          ask (.recordAttempt (some username) ip true)
          ask (.touchUserLogin username (some ip))
          let id ← ask .generateSessionId
          let ua := extractUserAgent headers
          let _ ← ofExcept (← ask (.createSession id username (some ip) ua))
          -- expect("just-verified user must exist")
          let user ← ofOption (← ofExcept (← ask (.getUser username)))
          withCookie (.json 200 (.identity user.username user.role)) (buildSessionCookie id state.devMode)

def handleLogout (state : AppState) (headers : HeaderMap) : Handler Response := do
  if let some id := extractSessionId headers then
    ofExcept (← ask (.revokeSession id))
  withCookie ⟨204, [], .empty⟩ (buildClearingCookie state.devMode)

end Errex.Model.Auth
