import Errex.Model.Auth
import Errex.Model.Webhook

/-!
# The admin API

The `/api/admin/*` handlers of `ingest.rs` on retention, projects and users.
-/

namespace Errex.Model.Admin
open Foundation Store Text Process Auth

def trimEndSlashes (s : String) : String := .ofList (s.toList.reverse.dropWhile (· == '/')).reverse

def dsnFor (publicUrl project token : String) : String :=
  let trimmed := trimEndSlashes publicUrl
  let (scheme, authority) := (splitOnce trimmed "://").getD ("http", trimmed)
  s!"{scheme}://{token}@{authority}/{project}"

def ingestUrlFor (publicUrl project token : String) : String :=
  s!"{trimEndSlashes publicUrl}/api/{project}/envelope/?sentry_key={token}"

def projectView (p : Project) (publicUrl : String) : AdminProjectView where
  name := p.name
  token := p.token
  webhookUrl := p.webhookUrl
  createdAt := p.createdAt
  lastUsedAt := p.lastUsedAt
  dsn := dsnFor publicUrl p.name p.token
  ingestUrl := ingestUrlFor publicUrl p.name p.token
  lastWebhookStatus := p.lastWebhookStatus
  lastWebhookAt := p.lastWebhookAt

def checkAdmin (headers : HeaderMap) (rest : Handler Response) : Handler Response := do
  match ← requireAdmin headers with
  | .error response => pure response
  | .ok _ => rest

def withBody {α : Type} (body : Option α) (rest : α → Handler Response) : Handler Response :=
  match body with
  | none => pure (.text 400 "missing body")
  | some body => rest body

structure RetentionBody where
  eventsPerIssueMax : Int64
  issuesPerProjectMax : Int64
  eventRetentionDays : Int64

def adminPutRetention (headers : HeaderMap) (body : Option RetentionBody) : Handler Response :=
  checkAdmin headers <| withBody body fun body => do
    if body.eventsPerIssueMax < 0 ∨ body.issuesPerProjectMax < 0 ∨ body.eventRetentionDays < 0 then
      return .text 400 "values must be >= 0"
    let s : RetentionSettings := ⟨body.eventsPerIssueMax, body.issuesPerProjectMax, body.eventRetentionDays⟩
    ofExcept (← ask (.setRetentionSettings s))
    return .json 200 (.retention s)

def adminCreateProject (state : AppState) (headers : HeaderMap) (body : Option String) : Handler Response :=
  checkAdmin headers <| withBody body fun body => do
    let name := trim body
    if name.isEmpty then
      return .text 400 "name must not be empty"
    match ← ask (.createProject name) with
    | .ok p => return .json 201 (.project (projectView p state.publicUrl))
    | .error (.sqlx .uniqueViolation) => return .text 409 "project name already exists"
    | .error other => throw other

structure WebhookBody where
  url : Option String

def adminSetWebhook (parsers : Webhook.Parsers) (state : AppState) (name : String) (headers : HeaderMap)
    (body : Option WebhookBody) : Handler Response :=
  checkAdmin headers <| withBody body fun body => do
    match body.url.map (Webhook.validateUrl parsers) with
    | some (.error why) => return .text 400 why
    | _ => do
        match ← ask (.setProjectWebhook name body.url) with
        | .ok () => do
            -- expect("just-updated project must exist")
            let p ← ofOption (← ofExcept (← ask (.projectByName name)))
            return .json 200 (.project (projectView p state.publicUrl))
        | .error (.notFound _) => return .text 404 "project not found"
        | .error other => throw other

def adminRenameProject (state : AppState) (name : String) (headers : HeaderMap) (body : Option String) :
    Handler Response :=
  checkAdmin headers <| withBody body fun body => do
    let newName := trim body
    if newName.isEmpty then
      return .text 400 "name must not be empty"
    match ← ask (.renameProject name newName) with
    | .ok p => return .json 200 (.project (projectView p state.publicUrl))
    | .error (.notFound _) => return .text 404 "project not found"
    | .error (.sqlx .uniqueViolation) => return .text 409 "project name already exists"
    | .error other => throw other

def adminDeleteProject (name : String) (headers : HeaderMap) : Handler Response :=
  checkAdmin headers do
    match ← ask (.deleteProject name) with
    | .ok summary => return .json 200 (.deleted summary)
    | .error (.notFound _) => return .text 404 "project not found"
    | .error other => throw other

structure CreateUserBody where
  username : String
  password : String
  role : Role

def adminCreateUser (headers : HeaderMap) (body : Option CreateUserBody) : Handler Response :=
  checkAdmin headers <| withBody body fun body => do
    let username := trim body.username
    if username.isEmpty ∨ 64 < username.utf8ByteSize then
      return .text 400 "username 1..=64 chars"
    match validatePasswordStrength body.password with
    | .error why => return .text 400 why
    | .ok () => do
        let hash ← ofExcept (← ask (.hashPassword body.password))
        match ← ask (.createUser username hash body.role) with
        | .ok u => return .json 201 (.user u)
        | .error (.sqlx .uniqueViolation) => return .text 409 "username already exists"
        | .error other => throw other

structure PatchUserBody where
  password : Option String
  role : Option Role
  deactivated : Option Bool

def ifSome {α : Type} (field : Option α) (write : α → Handler Unit) : Handler Unit :=
  match field with
  | some a => write a
  | none => pure ()

def applyPatch (u : String) (body : PatchUserBody) : Handler Response := do
  ifSome body.password fun p => do
    let hash ← ofExcept (← ask (.hashPassword p))
    ofExcept (← ask (.setUserPassword u hash))
  ifSome body.role fun role => do
    ofExcept (← ask (.setUserRole u role))
  ifSome body.deactivated fun deact => do
    ofExcept (← ask (.setUserDeactivated u deact))
  -- expect("existence checked above")
  let updated ← ofOption (← ofExcept (← ask (.getUser u)))
  return .json 200 (.user updated)

def demoting (body : PatchUserBody) (current : User) : Bool :=
  (body.role.map fun r => r != .admin && current.role == .admin).getD false

def deactivating (body : PatchUserBody) (current : User) : Bool :=
  body.deactivated.getD false && current.role == .admin && current.deactivatedAt.isNone

def adminPatchUser (u : String) (headers : HeaderMap) (body : Option PatchUserBody) : Handler Response :=
  checkAdmin headers <| withBody body fun body => do
    if (← ofExcept (← ask (.getUser u))).isNone then
      return .text 404 "user not found"
    match body.password.map validatePasswordStrength with
    | some (.error why) => return .text 400 why
    | _ => do
        -- expect("existence checked above")
        let current ← ofOption (← ofExcept (← ask (.getUser u)))
        if demoting body current || deactivating body current then
          let admins ← ofExcept (← ask .countActiveAdmins)
          if admins ≤ 1 then
            return .text 409 "cannot demote or deactivate the last active admin"
        applyPatch u body

def adminDeleteUser (u : String) (headers : HeaderMap) : Handler Response :=
  checkAdmin headers do
    match ← ofExcept (← ask (.getUser u)) with
    | none => return .text 404 "user not found"
    | some target => do
        if target.role == .admin && target.deactivatedAt.isNone then
          let admins ← ofExcept (← ask .countActiveAdmins)
          if admins ≤ 1 then
            return .text 409 "cannot delete the last active admin"
        ofExcept (← ask (.deleteUser u))
        return ⟨204, [], .empty⟩

def adminRevokeUserSessions (u : String) (headers : HeaderMap) : Handler Response :=
  checkAdmin headers do
    if (← ofExcept (← ask (.getUser u))).isNone then
      return .text 404 "user not found"
    let revoked ← ofExcept (← ask (.revokeUserSessions u))
    return .json 200 (.sessionsRevoked revoked)

end Errex.Model.Admin
