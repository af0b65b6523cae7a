import Errex.Foundation.Component
import Errex.Foundation.Routing

/-!
# The table of the router

`build_router` as the table of its paths, and how a request finds its handler: by its path, then by its method; the
parameters of the path are percent-decoded.
-/

namespace Errex.Model.Router
open Foundation Uri Routing

inductive Method where
  | get | post | put | patch | delete
  deriving DecidableEq

inductive Handler where
  | health | metrics | ingestEnvelope
  | listProjects | listIssues | latestEvent | putStatus
  | handleSetup | handleSetupStatus | handleLogin | handleLogout | handleMe
  | adminGetRetention | adminPutRetention | adminGetStorage
  | adminListProjects | adminCreateProject | adminRenameProject | adminDeleteProject
  | adminSetWebhook | adminRotateToken | adminProjectActivity | adminDestroyPreview
  | adminListUsers | adminCreateUser | adminGetUser | adminPatchUser | adminDeleteUser
  | adminListUserSessions | adminRevokeUserSessions
  | handleWs
  deriving DecidableEq

abbrev MethodRouter := List (Method × Handler)

def routes : List (String × MethodRouter) :=
  [("/health", [(.get, .health)]),
   ("/metrics", [(.get, .metrics)]),
   ("/api/:project/envelope/", [(.post, .ingestEnvelope)]),
   ("/api/projects", [(.get, .listProjects)]),
   ("/api/issues", [(.get, .listIssues)]),
   ("/api/issues/:id/event", [(.get, .latestEvent)]),
   ("/api/issues/:id/status", [(.put, .putStatus)]),
   ("/api/auth/setup", [(.post, .handleSetup)]),
   ("/api/auth/setup-status", [(.get, .handleSetupStatus)]),
   ("/api/auth/login", [(.post, .handleLogin)]),
   ("/api/auth/logout", [(.post, .handleLogout)]),
   ("/api/auth/me", [(.get, .handleMe)]),
   ("/api/admin/retention", [(.get, .adminGetRetention), (.put, .adminPutRetention)]),
   ("/api/admin/storage", [(.get, .adminGetStorage)]),
   ("/api/admin/projects", [(.get, .adminListProjects), (.post, .adminCreateProject)]),
   ("/api/admin/projects/:name", [(.patch, .adminRenameProject), (.delete, .adminDeleteProject)]),
   ("/api/admin/projects/:name/webhook", [(.put, .adminSetWebhook)]),
   ("/api/admin/projects/:name/rotate", [(.post, .adminRotateToken)]),
   ("/api/admin/projects/:name/activity", [(.get, .adminProjectActivity)]),
   ("/api/admin/projects/:name/destroy-preview", [(.get, .adminDestroyPreview)]),
   ("/api/admin/users", [(.get, .adminListUsers), (.post, .adminCreateUser)]),
   ("/api/admin/users/:u", [(.get, .adminGetUser), (.patch, .adminPatchUser), (.delete, .adminDeleteUser)]),
   ("/api/admin/users/:u/sessions", [(.get, .adminListUserSessions)]),
   ("/api/admin/users/:u/sessions/revoke-all", [(.post, .adminRevokeUserSessions)]),
   ("/ws/:project", [(.get, .handleWs)])]

def segmentOf : List Char → Segment
  | ':' :: _ => .param
  | s => .literal s

def table : Table MethodRouter := routes.map fun route => ((segments route.1.toList).map segmentOf, route.2)

inductive Routed where
  | handled (handler : Handler) (params : List (List Char))
  | methodNotAllowed
  | fallback
  deriving DecidableEq

/-- The router's documentation leaves open whether an empty segment fits a parameter: `blank`. -/
def route (blank : Bool) (method : Method) (path : List Char) : Routed :=
  match search blank table (segments path) with
  | none => .fallback
  | some (params, methods) =>
      match methods.lookup method with
      | none => .methodNotAllowed
      | some handler => .handled handler params

/-- The call of a handler with its `Path`; a parameter that is not UTF-8 is a 400 of the extractor. -/
def Routed.call : Routed → Option (Handler × List String)
  | .handled handler params => (params.mapM decodeText).map fun decoded => (handler, decoded)
  | _ => none

end Errex.Model.Router
