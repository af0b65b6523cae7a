import Errex.Foundation.Machine
import Errex.Model.View

/-!
# The SPA's WebSocket client

`ws.ts`: its module variables, the sockets it has constructed, and what the browser's events do.
-/

namespace Errex.Model.WsClient
open Foundation

inductive ReadyState where
  | connecting
  | open
  | closing
  | closed
  deriving DecidableEq

/-- A socket; `open` sets its four handlers at once, and `connect` clears them at once. -/
structure Socket where
  project : String
  readyState : ReadyState
  handlers : Bool

inductive ConnectionStatus where
  | connecting
  | connected
  | reconnecting
  | disconnected

/-- `socket` is the position of a socket among all that were constructed; `current` is
`projects.current`. -/
structure Client where
  sockets : List Socket
  socket : Option Nat
  pendingProject : Option String
  reconnectTimer : Bool
  current : String
  status : ConnectionStatus
  view : View

def Client.initial : Client := ⟨[], none, none, false, "default", .connecting, .empty⟩

def Socket.close (ws : Socket) : Socket :=
  match ws.readyState with
  | .connecting | .open => { ws with readyState := .closing }
  | .closing | .closed => ws

namespace Client

def modify (c : Client) (ws : Nat) (f : Socket → Socket) : Client := { c with sockets := c.sockets.modify ws f }

def scheduleReconnect (c : Client) : Client := { c with reconnectTimer := true }

def openSocket (c : Client) (constructs : Bool) : Client :=
  match c.pendingProject with
  | none => c
  | some project =>
      if constructs then
        { c with sockets := c.sockets ++ [⟨project, .connecting, true⟩], socket := some c.sockets.length }
      else c.scheduleReconnect

def connected (c : Client) (project : String) : Bool :=
  decide (c.pendingProject = some project) && (c.socket.bind fun ws => c.sockets[ws]?).any fun s =>
    s.readyState = .connecting || s.readyState = .open

def strip (c : Client) : Client :=
  match c.socket with
  | none => c
  | some ws => { c.modify ws fun s => { s with handlers := false }.close with socket := none }

def connect (c : Client) (project : String) (constructs : Bool) : Client :=
  if c.connected project then { c with current := project }
  else
    let torn := { c with pendingProject := some project, current := project }.strip
    { torn with reconnectTimer := false, status := .connecting }.openSocket constructs

def disconnect (c : Client) : Client :=
  let closing : Client :=
    match c.socket with
    | none => c
    | some ws => { c.modify ws Socket.close with socket := none }
  { closing with pendingProject := none, reconnectTimer := false, status := .disconnected }

def onclose (c : Client) (ws : Nat) : Client :=
  let c := if c.socket = some ws then { c with socket := none } else c
  if c.pendingProject.isSome then { c with status := .reconnecting }.scheduleReconnect
  else { c with status := .disconnected }

end Client

/-- The calls of the app and the events of the browser. `data` is what `JSON.parse` makes of a
message, if it is one of the daemon's. -/
inductive Action where
  | connect (project : String) (constructs : Bool)
  | disconnect
  | opened (ws : Nat)
  | message (ws : Nat) (data : Option ServerMessage)
  | closing (ws : Nat)
  | closed (ws : Nat)
  | timer (constructs : Bool)

/-- A socket opens while it is connecting, and receives messages while it is open. The closing handshake of the peer takes
it out of that state some time before its close event, and it closes once. -/
def step (c : Client) : Action → Client
  | .connect project constructs => c.connect project constructs
  | .disconnect => c.disconnect
  | .opened ws =>
      match c.sockets[ws]? with
      | some ⟨_, .connecting, handlers⟩ =>
          let c := c.modify ws fun s => { s with readyState := .open }
          if handlers then { c with status := .connected } else c
      | _ => c
  | .message ws data =>
      match c.sockets[ws]?, data with
      | some ⟨_, .open, true⟩, some msg => { c with view := c.view.handle msg }
      | _, _ => c
  | .closing ws =>
      match c.sockets[ws]? with
      | some ⟨_, .open, _⟩ => c.modify ws fun s => { s with readyState := .closing }
      | _ => c
  | .closed ws =>
      match c.sockets[ws]? with
      | some s =>
          if s.readyState = .closed then c
          else
            let c := c.modify ws fun s => { s with readyState := .closed }
            if s.handlers then c.onclose ws else c
      | none => c
  | .timer constructs =>
      if c.reconnectTimer then { c with reconnectTimer := false }.openSocket constructs else c

end Errex.Model.WsClient
