import Errex.Foundation.Mediation
import Errex.Model.Api
import Errex.Model.Store.Queries
import Errex.Model.View
import Errex.Model.Ws

/-!
# The router

The routes of `build_router` that reach the store, with the handlers of `ingest.rs`, `auth.rs` and `ws.rs` that the
account and project API leaves out.
-/

namespace Errex.Model.Routes
open Foundation Store Process Auth Admin

inductive Query where
  | loadIssues
  | listIssuesByProject (project : String)
  | projectSummaries
  | latestEvent (issueId : Int)
  | listAdminProjects
  | rotateToken (name : String)
  | storageStats
  | deletePreview (name : String)
  | activityStats (name : String) (now : DateTime)
  | listUsers
  | listUserSessions (username : String)
  | broadcast (message : ServerMessage)
  | subscribe

/-- `activity_stats` panics without an answer where its cutoff is out of range. -/
def Query.Reply : Query → Type
  | .loadIssues => Except DaemonError (List Issue)
  | .listIssuesByProject _ => Except DaemonError (List Issue)
  | .projectSummaries => Except DaemonError (List ProjectSummary)
  | .latestEvent _ => Except DaemonError (Option StoredEvent)
  | .listAdminProjects => Except DaemonError (List Project)
  | .rotateToken _ => Except DaemonError Project
  | .storageStats => Except DaemonError StorageStats
  | .deletePreview _ => Except DaemonError DeleteSummary
  | .activityStats _ _ => Except DaemonError (Option ActivityStats)
  | .listUsers => Except DaemonError (List User)
  | .listUserSessions _ => Except DaemonError (List Session)
  | .broadcast _ => Unit
  | .subscribe => Unit

abbrev Http : Interface := Daemon.sum ⟨Query, Query.Reply⟩

structure Outside where
  disk : Disk
  fromStr : String → Except DaemonError Value

/-- The second part of the state are the broadcasts. -/
def execQuery (outside : Outside) : Semantics ⟨Query, Query.Reply⟩ World (Db × List ServerMessage) := fun w c (db, sent) =>
  let answer {α : Type} (tx : Tx α) : Except DaemonError α × Db × List ServerMessage :=
    ((transact w tx db).1, (transact w tx db).2, sent)
  match c with
  | .loadIssues => answer (Store.loadIssues w.now)
  | .listIssuesByProject project => answer (Store.listIssuesByProject w.now project)
  | .projectSummaries => answer Store.projectSummaries
  | .latestEvent issueId => answer (Store.latestEvent outside.fromStr w.now issueId)
  | .listAdminProjects => answer (Store.listAdminProjects w.now)
  | .rotateToken name => answer (Store.rotateToken w.now w.uuid name)
  | .storageStats => answer (Store.storageStats outside.disk)
  | .deletePreview name => answer (Store.deletePreview w.now name)
  | .activityStats name now => answer (Transaction.read (Store.activityStats w.now name now))
  | .listUsers => answer (Store.listUsers w.now)
  | .listUserSessions username => answer (Store.listUserSessions w.now username)
  | .broadcast message => ((), db, sent ++ [message])
  | .subscribe => ((), db, sent)

def execHttp (argon2 : Argon2) (outside : Outside) : Semantics Http World (Db × List ServerMessage) :=
  (exec argon2).sum (execQuery outside)

inductive Payload where
  | basic (body : Body)
  | setupStatus (needsSetup setupDisabled : Bool)
  | projects (list : List ProjectSummary)
  | issues (list : List Issue)
  | issue (issue : Issue)
  | event (stored : StoredEvent)
  | views (list : List AdminProjectView)
  | storage (stats : StorageStats)
  | activity (stats : ActivityStats)
  | users (list : List User)
  | sessions (list : List Session)

structure Answer where
  status : Nat
  headers : List (String × String)
  payload : Payload

def Answer.ofResponse (response : Response) : Answer := ⟨response.status, response.headers, .basic response.body⟩

def Answer.text (status : Nat) (s : String) : Answer := .ofResponse (.text status s)

def Answer.json (status : Nat) (payload : Payload) : Answer := ⟨status, [], payload⟩

abbrev Page (α : Type) := Process Http DaemonError α

def query (c : Query) : Page c.Reply := .call (.inr c) .ret

def daemon (c : Call) : Page c.Reply := .call (.inl c) .ret

@[simp] theorem query_bind {α : Type} (c : Query) (f : c.Reply → Page α) : (query c >>= f) = .call (.inr c) f := rfl

@[simp] theorem daemon_bind {α : Type} (c : Call) (f : c.Reply → Page α) : (daemon c >>= f) = .call (.inl c) f := rfl

def signedIn (headers : HeaderMap) (rest : AuthContext → Page Answer) : Page Answer := do
  match ← (requireAuth headers).inl with
  | .error response => pure (.ofResponse response)
  | .ok ctx => rest ctx

def asAdmin (headers : HeaderMap) (rest : Page Answer) : Page Answer := do
  match ← (requireAdmin headers).inl with
  | .error response => pure (.ofResponse response)
  | .ok _ => rest

def handleMe (headers : HeaderMap) : Page Answer :=
  signedIn headers fun ctx => return .json 200 (.basic (.identity ctx.session.username ctx.role))

def listProjects (headers : HeaderMap) : Page Answer :=
  signedIn headers fun _ => do
    let projects ← ofExcept (← query .projectSummaries)
    return .json 200 (.projects projects)

def listIssues (headers : HeaderMap) (project : Option String) : Page Answer :=
  signedIn headers fun _ => do
    match project with
    | some project => do
        let issues ← ofExcept (← query (.listIssuesByProject project))
        return .json 200 (.issues issues)
    | none => do
        let issues ← ofExcept (← query .loadIssues)
        return .json 200 (.issues issues)

def latestEvent (id : Int) (headers : HeaderMap) : Page Answer :=
  signedIn headers fun _ => do
    match ← ofExcept (← query (.latestEvent id)) with
    | some stored => return .json 200 (.event stored)
    | none => return .text 404 "no event for issue"

/-- `handle` of `ws.rs` up to the upgrade. -/
def handleWs (state : AppState) (headers : HeaderMap) : Page Answer :=
  signedIn headers fun _ => do
    match (headers.text "origin").filter fun origin => !Ws.originAllowed origin state.publicUrl state.devMode with
    | some _ => return .text 403 "origin not allowed"
    | none => do
        query .subscribe
        return .ofResponse ⟨101, [], .empty⟩

def putStatus (id : Int) (headers : HeaderMap) (body : Option IssueStatus) : Page Answer :=
  asAdmin headers do
    match body with
    | none => return .text 400 "invalid status body"
    | some status =>
        match ← daemon (.setStatus id status) with
        | .ok issue => do
            query (.broadcast (.issueUpdated issue))
            return .json 200 (.issue issue)
        | .error (.notFound _) => return .text 404 "issue not found"
        | .error other => throw other

def adminGetStorage (headers : HeaderMap) : Page Answer :=
  asAdmin headers do
    let s ← ofExcept (← query .storageStats)
    return .json 200 (.storage s)

def adminGetRetention (headers : HeaderMap) : Page Answer :=
  asAdmin headers do
    let s ← ofExcept (← daemon .getRetentionSettings)
    return .json 200 (.basic (.retention s))

def adminListProjects (state : AppState) (headers : HeaderMap) : Page Answer :=
  asAdmin headers do
    let list ← ofExcept (← query .listAdminProjects)
    return .json 200 (.views (list.map (projectView · state.publicUrl)))

def adminRotateToken (state : AppState) (name : String) (headers : HeaderMap) : Page Answer :=
  asAdmin headers do
    match ← query (.rotateToken name) with
    | .ok p => return .json 200 (.basic (.project (projectView p state.publicUrl)))
    | .error (.notFound _) => return .text 404 "project not found"
    | .error other => throw other

def adminDestroyPreview (name : String) (headers : HeaderMap) : Page Answer :=
  asAdmin headers do
    match ← query (.deletePreview name) with
    | .ok summary => return .json 200 (.basic (.deleted summary))
    | .error (.notFound _) => return .text 404 "project not found"
    | .error other => throw other

def adminProjectActivity (name : String) (headers : HeaderMap) : Page Answer :=
  asAdmin headers do
    if (← ofExcept (← daemon (.projectByName name))).isNone then
      return .text 404 "project not found"
    let now : UtcNow ← daemon .utcNow
    let stats ← ofOption (← ofExcept (← query (.activityStats name now.instant)))
    return .json 200 (.activity stats)

def adminListUsers (headers : HeaderMap) : Page Answer :=
  asAdmin headers do
    let users ← ofExcept (← query .listUsers)
    return .json 200 (.users users)

def adminGetUser (u : String) (headers : HeaderMap) : Page Answer :=
  asAdmin headers do
    match ← ofExcept (← daemon (.getUser u)) with
    | some user => return .json 200 (.basic (.user user))
    | none => return .text 404 "user not found"

def adminListUserSessions (u : String) (headers : HeaderMap) : Page Answer :=
  asAdmin headers do
    if (← ofExcept (← daemon (.getUser u))).isNone then
      return .text 404 "user not found"
    let sessions ← ofExcept (← query (.listUserSessions u))
    return .json 200 (.sessions sessions)

def handleSetupStatus (state : AppState) : Page Answer := do
  let noUsers := (← ofExcept (← daemon .userCount)) == 0
  let tokenConfigured := state.setupToken.isSome
  return .json 200 (.setupStatus (noUsers && tokenConfigured) (noUsers && !tokenConfigured))

/-- The routes of the API and the WebSocket. `/health` and `/metrics` read no table, and the route of `ingest_envelope`,
which writes `last_used_at` only, has a module of its own. -/
inductive Route where
  | api (request : Request)
  | setupStatus
  | me (headers : HeaderMap)
  | listProjects (headers : HeaderMap)
  | listIssues (headers : HeaderMap) (project : Option String)
  | latestEvent (id : Int) (headers : HeaderMap)
  | ws (headers : HeaderMap)
  | putStatus (id : Int) (headers : HeaderMap) (body : Option IssueStatus)
  | getStorage (headers : HeaderMap)
  | getRetention (headers : HeaderMap)
  | adminProjects (headers : HeaderMap)
  | rotateToken (name : String) (headers : HeaderMap)
  | destroyPreview (name : String) (headers : HeaderMap)
  | projectActivity (name : String) (headers : HeaderMap)
  | listUsers (headers : HeaderMap)
  | getUser (u : String) (headers : HeaderMap)
  | listUserSessions (u : String) (headers : HeaderMap)

def Route.handle (parsers : Webhook.Parsers) (state : AppState) : Route → Page Answer
  | .api request => do
      let response ← (request.handle parsers state).inl
      return .ofResponse response
  | .setupStatus => handleSetupStatus state
  | .me headers => handleMe headers
  | .listProjects headers => Routes.listProjects headers
  | .listIssues headers project => Routes.listIssues headers project
  | .latestEvent id headers => Routes.latestEvent id headers
  | .ws headers => handleWs state headers
  | .putStatus id headers body => Routes.putStatus id headers body
  | .getStorage headers => adminGetStorage headers
  | .getRetention headers => adminGetRetention headers
  | .adminProjects headers => adminListProjects state headers
  | .rotateToken name headers => adminRotateToken state name headers
  | .destroyPreview name headers => adminDestroyPreview name headers
  | .projectActivity name headers => adminProjectActivity name headers
  | .listUsers headers => adminListUsers headers
  | .getUser u headers => adminGetUser u headers
  | .listUserSessions u headers => adminListUserSessions u headers

abbrev ServingAll := System Http DaemonError Answer (Db × List ServerMessage)

def serveAll (parsers : Webhook.Parsers) (state : AppState) (db : Db) (routes : List Route) : ServingAll :=
  ⟨(db, []), routes.map (Route.handle parsers state)⟩

end Errex.Model.Routes
