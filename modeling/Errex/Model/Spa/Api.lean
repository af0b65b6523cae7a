import Errex.Model.Router

/-!
# Requests of the SPA

The calls of `api.ts`, and the socket of `ws.ts`, that address a project or a user by its name.
-/

namespace Errex.Model.Spa
open Foundation Uri Utf16 Router

inductive Endpoint where
  | setWebhook | rotateToken | renameProject | deleteProject | destroyPreview | getActivity
  | getUser | updateUser | deleteUser | listUserSessions | revokeUserSessions
  | wsUrl
  deriving DecidableEq

namespace Endpoint

def method : Endpoint → Method
  | setWebhook => .put
  | rotateToken | revokeUserSessions => .post
  | renameProject | updateUser => .patch
  | deleteProject | deleteUser => .delete
  | destroyPreview | getActivity | getUser | listUserSessions | wsUrl => .get

def before : Endpoint → List String
  | setWebhook | rotateToken | renameProject | deleteProject | destroyPreview | getActivity => ["api", "admin", "projects"]
  | getUser | updateUser | deleteUser | listUserSessions | revokeUserSessions => ["api", "admin", "users"]
  | wsUrl => ["ws"]

def after : Endpoint → List String
  | setWebhook => ["webhook"]
  | rotateToken => ["rotate"]
  | destroyPreview => ["destroy-preview"]
  | getActivity => ["activity"]
  | listUserSessions => ["sessions"]
  | revokeUserSessions => ["sessions", "revoke-all"]
  | renameProject | deleteProject | getUser | updateUser | deleteUser | wsUrl => []

def path (endpoint : Endpoint) (component : List Char) : List Char :=
  joinPath (endpoint.before.map String.toList ++ component :: endpoint.after.map String.toList)

def handler : Endpoint → Handler
  | setWebhook => .adminSetWebhook
  | rotateToken => .adminRotateToken
  | renameProject => .adminRenameProject
  | deleteProject => .adminDeleteProject
  | destroyPreview => .adminDestroyPreview
  | getActivity => .adminProjectActivity
  | getUser => .adminGetUser
  | updateUser => .adminPatchUser
  | deleteUser => .adminDeleteUser
  | listUserSessions => .adminListUserSessions
  | revokeUserSessions => .adminRevokeUserSessions
  | wsUrl => .handleWs

/-- What the daemon makes of the call with a name: the browser resolves the path, and the router finds the handler. A
name that cannot be encoded leaves no request. -/
def send (blank : Bool) (endpoint : Endpoint) (name : Utf16) : Option Routed :=
  (encodeURIComponent name).map fun component => route blank endpoint.method (resolvePath (endpoint.path component))

end Endpoint

end Errex.Model.Spa
