import Errex.Model.Admin

/-!
# The requests of the account and project API
-/

namespace Errex.Model
open Foundation Store Auth Admin

inductive Request where
  | setup (peer : Option String) (headers : HeaderMap) (body : Option SetupBody)
  | login (peer : Option String) (headers : HeaderMap) (body : Option LoginBody)
  | logout (headers : HeaderMap)
  | createUser (headers : HeaderMap) (body : Option CreateUserBody)
  | patchUser (u : String) (headers : HeaderMap) (body : Option PatchUserBody)
  | deleteUser (u : String) (headers : HeaderMap)
  | revokeUserSessions (u : String) (headers : HeaderMap)
  | createProject (headers : HeaderMap) (body : Option String)
  | setWebhook (name : String) (headers : HeaderMap) (body : Option WebhookBody)
  | renameProject (name : String) (headers : HeaderMap) (body : Option String)
  | deleteProject (name : String) (headers : HeaderMap)
  | putRetention (headers : HeaderMap) (body : Option RetentionBody)

def Request.handle (parsers : Webhook.Parsers) (state : AppState) : Request → Handler Response
  | .setup peer headers body => handleSetup state peer headers body
  | .login peer headers body => handleLogin state peer headers body
  | .logout headers => handleLogout state headers
  | .createUser headers body => adminCreateUser headers body
  | .patchUser u headers body => adminPatchUser u headers body
  | .deleteUser u headers => adminDeleteUser u headers
  | .revokeUserSessions u headers => adminRevokeUserSessions u headers
  | .createProject headers body => adminCreateProject state headers body
  | .setWebhook name headers body => adminSetWebhook parsers state name headers body
  | .renameProject name headers body => adminRenameProject state name headers body
  | .deleteProject name headers => adminDeleteProject name headers
  | .putRetention headers body => adminPutRetention headers body

abbrev Serving := System Daemon DaemonError Response Db

def serve (parsers : Webhook.Parsers) (state : AppState) (db : Db) (requests : List Request) : Serving :=
  ⟨db, requests.map (Request.handle parsers state)⟩

def anyParsers : Webhook.Parsers := ⟨fun _ => none, fun _ => none⟩

def localState : AppState := ⟨some "secret", "http://localhost", true, false⟩

def rootDb : Db :=
  { Db.empty with
    users := ⟨[⟨"root", "correct horse battery", .admin, "2026-04-28T12:00:00+00:00", none, none, none⟩],
      by decide⟩
    sessions := ⟨[⟨"5e551", "root", "2026-04-28T12:00:00+00:00", "2026-04-28T12:00:00+00:00", none, none⟩],
      by decide⟩ }

def rootHeaders : HeaderMap := [("cookie", "errex_session=5e551".toUTF8.data.toList)]

def setupRequest : Request := .setup none [] (some ⟨"secret", "root", "correct horse battery"⟩)

def setupHeaders : HeaderMap :=
  [("cookie", ("errex_session=" ++ generateSessionId ⟨0⟩ ⟨0⟩).toUTF8.data.toList)]

end Errex.Model
