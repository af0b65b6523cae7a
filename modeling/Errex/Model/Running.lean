import Errex.Model.Retention
import Errex.Model.Routes
import Errex.Model.WebhookTask

/-!
# The daemon at work

Requests to any route, ticks of the retention task, the digest task's batches and the webhook task, all on one database.
-/

namespace Errex.Model
open Foundation Store Routes

structure Running where
  pool : List (Page Answer)
  /-- What the requests have broadcast. -/
  sent : List ServerMessage
  ticks : List (Handler Unit)
  hooks : Webhook.State

inductive Turn where
  | request (i : Nat) (w : World)
  | tick (i : Nat) (w : World)
  | task (action : Webhook.Action)

namespace Running

def step (argon2 : Argon2) (outside : Outside) (s : Running) : Turn → Running
  | .request i w =>
      let after := System.step (execHttp argon2 outside) ⟨(s.hooks.db, s.sent), s.pool⟩ (i, w)
      { s with pool := after.pool, sent := after.state.2, hooks := { s.hooks with db := after.state.1 } }
  | .tick i w =>
      let after := System.step (exec argon2) ⟨s.hooks.db, s.ticks⟩ (i, w)
      { s with ticks := after.pool, hooks := { s.hooks with db := after.state } }
  | .task action => { s with hooks := Webhook.step s.hooks action }

def start (parsers : Webhook.Parsers) (state : AppState) (db : Db) (routes : List Route) (bootDays : List UInt32) : Running where
  pool := routes.map (Route.handle parsers state)
  sent := []
  ticks := bootDays.map Retention.runOneTick
  hooks := ⟨db, [], .receiving⟩

end Running

end Errex.Model
