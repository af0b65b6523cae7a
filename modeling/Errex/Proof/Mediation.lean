import Errex.Model.Routes
import Errex.Proof.Accounts.Sessions

/-!
# Who may do what

Every handler but those of setup, login, logout and the setup status looks up the session of its cookie before it does
anything else, and goes on only if the session's user may.
-/

namespace Errex.Proof.Mediation
open Foundation Process Model Store Auth Admin Routes Accounts

inductive Access where
  | everyone
  | users
  | admins
  deriving DecidableEq

def access : Route → Access
  | .api (.setup ..) | .api (.login ..) | .api (.logout ..) | .setupStatus => .everyone
  | .api _ => .admins
  | .me _ | .listProjects _ | .listIssues _ _ | .latestEvent _ _ | .ws _ => .users
  | .putStatus _ _ _ | .getStorage _ | .getRetention _ | .adminProjects _ | .rotateToken _ _ | .destroyPreview _ _
  | .projectActivity _ _ | .listUsers _ | .getUser _ _ | .listUserSessions _ _ => .admins

def headers : Route → HeaderMap
  | .api (.setup _ headers _) | .api (.login _ headers _) | .api (.logout headers) | .api (.createUser headers _)
  | .api (.patchUser _ headers _) | .api (.deleteUser _ headers) | .api (.revokeUserSessions _ headers)
  | .api (.createProject headers _) | .api (.setWebhook _ headers _) | .api (.renameProject _ headers _)
  | .api (.deleteProject _ headers) | .api (.putRetention headers _) | .me headers | .listProjects headers
  | .listIssues headers _ | .latestEvent _ headers | .ws headers | .putStatus _ headers _ | .getStorage headers
  | .getRetention headers | .adminProjects headers | .rotateToken _ headers | .destroyPreview _ headers
  | .projectActivity _ headers | .listUsers headers | .getUser _ headers | .listUserSessions _ headers => headers
  | .setupStatus => []

def ofGate : Http.Call → Bool
  | .inl (.sessionForId _) | .inl (.touchSession _) => true
  | _ => false

def Privileged (c : Http.Call) : Prop := ofGate c = false

def Access.suits (access : Access) (role : Role) : Prop := access = .admins → role = .admin

/-- The reply to a session lookup that lets a request in. -/
def Admits (access : Access) (headers : HeaderMap) : (c : Http.Call) → Http.Reply c → Prop
  | .inl (.sessionForId id), .ok (some (_, role, _)) => extractSessionId headers = some id ∧ access.suits role
  | _, _ => False

def Refusal (answer : Answer) : Prop := answer.status = 401 ∨ answer.status = 403 ∨ answer.status = 500

def Declined (response : Response) : Prop := Refusal (.ofResponse response)

abbrev Gated {α : Type} (access : Access) (headers : HeaderMap) (refused : α → Prop) (p : Handler α) : Prop :=
  p.Mediated (fun c => Privileged (.inl c)) (fun c reply => Admits access headers (.inl c) reply) refused

variable {headers : HeaderMap}

theorem requireAuth_gated :
    Gated .users headers (fun verdict => ∃ response, verdict = .error response ∧ Declined response) (requireAuth headers) := by
  unfold requireAuth
  cases named : extractSessionId headers with
  | none => exact ⟨_, rfl, .inl rfl⟩
  | some id =>
      refine ⟨by simp [Privileged, ofGate], fun reply => ?_⟩
      match reply with
      | .error error => exact .inr ⟨_, rfl, .inr (.inr rfl)⟩
      | .ok none => exact .inr ⟨_, rfl, .inl rfl⟩
      | .ok (some (session, role, deactivated)) => exact .inl ⟨named, nofun⟩

theorem requireAdmin_gated :
    Gated .admins headers (fun verdict => ∃ response, verdict = .error response ∧ Declined response) (requireAdmin headers) := by
  unfold requireAdmin requireAuth
  cases named : extractSessionId headers with
  | none => exact ⟨_, rfl, .inl rfl⟩
  | some id =>
      refine ⟨by simp [Privileged, ofGate], fun reply => ?_⟩
      match reply with
      | .error error => exact .inr ⟨_, rfl, .inr (.inr rfl)⟩
      | .ok none => exact .inr ⟨_, rfl, .inl rfl⟩
      | .ok (some (session, .admin, deactivated)) => exact .inl ⟨named, fun _ => rfl⟩
      | .ok (some (session, .viewer, deactivated)) =>
          exact .inr ⟨by simp [Privileged, ofGate], fun _ => .inr ⟨_, rfl, .inr (.inl rfl)⟩⟩

theorem checkAdmin_gated (rest : Handler Response) : Gated .admins headers Declined (checkAdmin headers rest) := by
  refine requireAdmin_gated.bind ?_
  rintro verdict ⟨response, rfl, declined⟩
  exact declined

theorem signedIn_mediated (rest : AuthContext → Page Answer) :
    (signedIn headers rest).Mediated Privileged (Admits .users headers) Refusal := by
  refine requireAuth_gated.inl.bind ?_
  rintro verdict ⟨response, rfl, declined⟩
  exact declined

theorem asAdmin_mediated (rest : Page Answer) :
    (asAdmin headers rest).Mediated Privileged (Admits .admins headers) Refusal := by
  refine requireAdmin_gated.inl.bind ?_
  rintro verdict ⟨response, rfl, declined⟩
  exact declined

theorem handle_gated (parsers : Webhook.Parsers) (state : AppState) (request : Request)
    (limited : access (.api request) = .admins) :
    Gated .admins (Mediation.headers (.api request)) Declined (request.handle parsers state) := by
  cases request
  case setup => cases limited
  case login => cases limited
  case logout => cases limited
  all_goals exact checkAdmin_gated _

theorem handle_mediated (parsers : Webhook.Parsers) (state : AppState) (route : Route)
    (limited : access route ≠ .everyone) :
    (route.handle parsers state).Mediated Privileged (Admits (access route) (Mediation.headers route)) Refusal := by
  cases route
  case setupStatus => exact absurd rfl limited
  case api request =>
    have admins : access (.api request) = .admins := by
      cases request
      case setup => exact absurd rfl limited
      case login => exact absurd rfl limited
      case logout => exact absurd rfl limited
      all_goals rfl
    rw [admins]
    refine (handle_gated parsers state request admins).inl.bind ?_
    exact fun response declined => declined
  case me | listProjects | listIssues | latestEvent | ws => exact signedIn_mediated _
  all_goals exact asAdmin_mediated _

variable {argon2 : Argon2} {outside : Outside}

theorem sessionForId_user {now : UtcNow} {id : String} {db db' : Db} {session : Session} {role : Role} {deactivated : Bool}
    (ok : sessionForId now id db = .ok (some (session, role, deactivated), db')) :
    ∃ row user, db.sessions.find? id = some row ∧ db.users.find? row.username = some user ∧ user.role = role := by
  simp only [sessionForId, Transaction.read_run, Except.ok.injEq, Prod.mk.injEq] at ok
  obtain ⟨row, stored, rest⟩ := Option.bind_eq_some_iff.mp ok.1
  obtain ⟨user, found, answer⟩ := Option.bind_eq_some_iff.mp rest
  cases answer
  exact ⟨row, user, stored, found, rfl⟩

theorem sessionUser_of_admits {access : Access} {w : World} {c : Http.Call} {db : Db} {sent : List ServerMessage}
    (admits : Admits access headers c (execHttp argon2 outside w c (db, sent)).1) :
    ∃ user, sessionUser headers db = some user ∧ access.suits user.role := by
  rcases c with c | c
  · cases c
    case sessionForId id =>
      have lookup : (execHttp argon2 outside w (.inl (.sessionForId id)) (db, sent)).1 =
          (transact w (sessionForId w.now id) db).1 := rfl
      rw [lookup] at admits
      cases answer : (transact w (sessionForId w.now id) db).1 with
      | error error => exact (answer ▸ admits : Admits access headers (.inl (.sessionForId id)) (.error error)).elim
      | ok found =>
          match found with
          | none => exact (answer ▸ admits : Admits access headers (.inl (.sessionForId id)) (.ok none)).elim
          | some (session, role, deactivated) =>
              obtain ⟨named, suits⟩ :=
                (answer ▸ admits : Admits access headers (.inl (.sessionForId id)) (.ok (some (session, role, deactivated))))
              obtain ⟨row, user, stored, found, rfl⟩ := sessionForId_user (transact_ok answer)
              exact ⟨user, by simp [sessionUser, named, stored, found], suits⟩
    all_goals exact admits.elim
  · exact admits.elim

/-- At some turn of the request in a run, the session of its cookie was that of a user who may use the route. -/
def EnteredIn (argon2 : Argon2) (outside : Outside) (start : ServingAll) (schedule : List (Nat × World)) (i : Nat)
    (route : Route) : Prop :=
  ∃ before turn after, schedule = before ++ turn :: after ∧ turn.1 = i ∧
    ∃ user, sessionUser (Mediation.headers route) (System.run (execHttp argon2 outside) start before).state.1 = some user ∧
      (access route).suits user.role

theorem EnteredIn.of_granted {start : ServingAll} {schedule : List (Nat × World)} {i : Nat} {route : Route}
    (granted : System.GrantedIn (execHttp argon2 outside) (Admits (access route) (Mediation.headers route)) i start schedule) :
    EnteredIn argon2 outside start schedule i route := by
  obtain ⟨before, turn, after, whole, turns, c, -, admits⟩ := granted
  exact ⟨before, turn, after, whole, turns, sessionUser_of_admits admits⟩

/-- In every interleaving, a request to a route that is not open to everyone makes a call outside the gate only after a
turn at which the session of its cookie was that of a user who may use the route; without one its answer is a refusal. -/
theorem limited_routes_are_mediated (parsers : Webhook.Parsers) (state : AppState) (argon2 : Argon2) (outside : Outside)
    (db : Db) (routes : List Route) (schedule : List (Nat × World)) {i : Nat} {route : Route} (at_i : routes[i]? = some route)
    (limited : access route ≠ .everyone) :
    let start := serveAll parsers state db routes
    let after := System.run (execHttp argon2 outside) start schedule
    (∀ (w : World) c, after.nextCall (i, w) = some c → Privileged c → EnteredIn argon2 outside start schedule i route) ∧
      ∀ answer, after.pool[i]? = some (.ret answer) → EnteredIn argon2 outside start schedule i route ∨ Refusal answer := by
  intro start after
  have in_pool : start.pool[i]? = some (route.handle parsers state) := by simp [start, serveAll, at_i]
  have mediated := handle_mediated parsers state route limited
  refine ⟨fun w c next demands => ?_, fun answer done => ?_⟩
  · exact .of_granted (System.run_mediated in_pool mediated next demands)
  · exact (System.run_refused in_pool mediated done).imp_left .of_granted

theorem listUsers_is_mediated :
    EnteredIn plainArgon2 ⟨⟨0, fun _ => 0⟩, fun _ => .error (.notFound "payload")⟩
      (serveAll anyParsers localState rootDb [.listUsers rootHeaders]) [(0, noonWorld 0), (0, noonWorld 0)] 0
      (.listUsers rootHeaders) :=
  (limited_routes_are_mediated anyParsers localState plainArgon2 _ rootDb [.listUsers rootHeaders]
    [(0, noonWorld 0), (0, noonWorld 0)] rfl (by decide)).1 (noonWorld 0) (.inr .listUsers) rfl rfl

end Errex.Proof.Mediation
