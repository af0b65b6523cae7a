import Errex.Proof.WsClient

/-!
# The client finds its way back

While the client wants a project it either has a socket to it, whose close event it will hear, or waits for the reconnect
timer. So from wherever calls and events have led, a close event, the timer and one more socket are enough to be connected.
-/

namespace Errex.Proof.WsClient
open Foundation Model Model.WsClient

def Holds (c : Client) (project : String) (readyState : ReadyState) : Prop :=
  ∃ ws, c.socket = some ws ∧ c.sockets[ws]? = some ⟨project, readyState, true⟩

/-- A client that wants a project waits for the timer, or for its socket to open or to close, or is connected. -/
def Hopeful (c : Client) (project : String) : Prop :=
  c.reconnectTimer = true ∨ (Holds c project .connecting ∨ Holds c project .closing) ∨
    Holds c project .open ∧ c.status = .connected

structure Steady (c : Client) : Prop where
  hopeful : ∀ project, c.pendingProject = some project → Hopeful c project
  disconnected : c.status = .disconnected → c.pendingProject = none
  waiting : c.reconnectTimer = true → c.pendingProject.isSome

theorem Steady.initial : Steady Client.initial := ⟨nofun, nofun, nofun⟩

theorem holds_openSocket {c : Client} {project : String} (pending : c.pendingProject = some project) :
    Holds (c.openSocket true) project .connecting := by
  refine ⟨c.sockets.length, ?_, ?_⟩
  · simp [Client.openSocket, pending]
  · simp [Client.openSocket, pending]

theorem steady_openSocket {c : Client} (up : c.status = .disconnected → c.pendingProject = none)
    (waiting : c.reconnectTimer = true → c.pendingProject.isSome) (constructs : Bool) :
    Steady (c.openSocket constructs) := by
  cases pending : c.pendingProject with
  | none =>
      have same : c.openSocket constructs = c := by
        rw [Client.openSocket, pending]
      rw [same]
      exact ⟨fun project some => by simp [pending] at some, up, waiting⟩
  | some wanted =>
      have kept : (c.openSocket constructs).pendingProject = some wanted ∧ (c.openSocket constructs).status = c.status := by
        cases constructs <;> simp [Client.openSocket, pending, Client.scheduleReconnect]
      refine ⟨fun project some => ?_, fun down => ?_, fun _ => by simp [kept.1]⟩
      · obtain rfl := Option.some.inj (kept.1.symm.trans some)
        cases constructs with
        | true => exact .inr (.inl (.inl (holds_openSocket pending)))
        | false => exact .inl (by simp [Client.openSocket, pending, Client.scheduleReconnect])
      · rw [kept.2] at down
        simp [pending] at up
        exact absurd down up

theorem Steady.connect {c : Client} (steady : Steady c) (project : String) (constructs : Bool) :
    Steady (c.connect project constructs) := by
  unfold Client.connect
  split_ifs
  · exact ⟨steady.hopeful, steady.disconnected, steady.waiting⟩
  · exact steady_openSocket (fun down => by cases down) (fun running => by cases running) constructs

theorem Steady.disconnect (c : Client) : Steady c.disconnect := by
  have down : c.disconnect.pendingProject = none ∧ c.disconnect.reconnectTimer = false := by
    unfold Client.disconnect
    exact ⟨rfl, rfl⟩
  refine ⟨fun project wanted => ?_, fun _ => down.1, fun running => ?_⟩
  · cases down.1.symm.trans wanted
  · cases down.2.symm.trans running

theorem Hopeful.modify {c : Client} {project : String} (hopeful : Hopeful c project) {ws : Nat}
    (other : ∀ readyState, c.socket = some ws → c.sockets[ws]? ≠ some ⟨project, readyState, true⟩) (f : Socket → Socket) :
    Hopeful (c.modify ws f) project := by
  have held : ∀ readyState, Holds c project readyState → Holds (c.modify ws f) project readyState := by
    rintro readyState ⟨current, is, found⟩
    have apart : ws ≠ current := by
      rintro rfl
      exact other readyState is found
    exact ⟨current, is, by simp [Client.modify, apart, found]⟩
  exact hopeful.imp_right (Or.imp (Or.imp (held _) (held _)) (And.imp_left (held _)))

theorem Hopeful.current {c : Client} {project : String} (hopeful : Hopeful c project) {ws : Nat} {s : Socket}
    (is : c.socket = some ws) (found : c.sockets[ws]? = some s) :
    c.reconnectTimer = true ∨ s = ⟨project, s.readyState, true⟩ := by
  have same : ∀ readyState, Holds c project readyState → s = ⟨project, s.readyState, true⟩ := by
    rintro readyState ⟨current, here, held⟩
    obtain rfl := Option.some.inj (is.symm.trans here)
    cases found.symm.trans held
    rfl
  rcases hopeful with running | (held | held) | ⟨held, -⟩
  · exact .inl running
  · exact .inr (same _ held)
  · exact .inr (same _ held)
  · exact .inr (same _ held)

theorem Hopeful.welcome {c : Client} {project : String} (hopeful : Hopeful c project) :
    Hopeful { c with status := .connected } project :=
  hopeful.imp_right (Or.imp_right fun held => ⟨held.1, rfl⟩)

theorem Steady.opened {c : Client} (steady : Steady c) (ws : Nat) : Steady (WsClient.step c (.opened ws)) := by
  simp only [WsClient.step]
  split
  · rename_i name handlers found
    have kept : ∀ project, c.pendingProject = some project → handlers = false ∨ c.socket ≠ some ws →
        Hopeful (c.modify ws fun s => { s with readyState := .open }) project := by
      intro project wanted apart
      refine (steady.hopeful project wanted).modify (fun readyState is held => ?_) _
      cases found.symm.trans held
      simp [is] at apart
    split_ifs with heard
    · subst heard
      refine ⟨fun project wanted => ?_, fun down => (by cases down), steady.waiting⟩
      by_cases is : c.socket = some ws
      · rcases (steady.hopeful project wanted).current is found with running | same
        · exact .inl running
        · cases same
          refine .inr (.inr ⟨⟨ws, is, ?_⟩, rfl⟩)
          simp [Client.modify, found]
      · exact (kept project wanted (.inr is)).welcome
    · refine ⟨fun project wanted => kept project wanted (.inl (by simpa using heard)), steady.disconnected, steady.waiting⟩
  · exact steady

theorem Steady.closing {c : Client} (steady : Steady c) (ws : Nat) : Steady (WsClient.step c (.closing ws)) := by
  simp only [WsClient.step]
  split
  · rename_i name handlers found
    refine ⟨fun project wanted => ?_, steady.disconnected, steady.waiting⟩
    by_cases is : c.socket = some ws
    · rcases (steady.hopeful project wanted).current is found with running | same
      · exact .inl running
      · cases same
        refine .inr (.inl (.inr ⟨ws, is, ?_⟩))
        simp [Client.modify, found]
    · exact (steady.hopeful project wanted).modify (fun readyState here => absurd here is) _
  · exact steady

theorem Steady.onclose {c : Client} (steady : Steady c) (ws : Nat) (f : Socket → Socket) :
    Steady ((c.modify ws f).onclose ws) := by
  obtain ⟨-, pending, -, timer⟩ := onclose_fields (c.modify ws f) ws
  have wanted : (c.modify ws f).pendingProject = c.pendingProject := rfl
  refine ⟨fun project some => .inl ?_, fun down => ?_, fun running => ?_⟩
  · rw [timer, ← pending, some]
    simp
  · cases still : c.pendingProject with
    | none => rw [pending, wanted, still]
    | some project =>
        have reconnecting : ((c.modify ws f).onclose ws).status = .reconnecting := by
          unfold Client.onclose
          split_ifs <;> simp_all [Client.modify, Client.scheduleReconnect]
        cases reconnecting.symm.trans down
  · rw [timer] at running
    rw [pending]
    cases still : (c.modify ws f).pendingProject with
    | none =>
        have stopped : c.reconnectTimer = true := by
          rw [still, Option.isSome_none, Bool.or_false] at running
          exact running
        exact still ▸ steady.waiting stopped
    | some project => rfl

theorem Steady.closed {c : Client} (steady : Steady c) (ws : Nat) : Steady (WsClient.step c (.closed ws)) := by
  simp only [WsClient.step]
  split
  · rename_i s found
    split_ifs with already heard
    · exact steady
    · exact steady.onclose ws _
    · refine ⟨fun project wanted => (steady.hopeful project wanted).modify (fun readyState _ held => ?_) _,
        steady.disconnected, steady.waiting⟩
      cases found.symm.trans held
      exact heard rfl
  · exact steady

theorem Steady.step {c : Client} (steady : Steady c) (action : Action) : Steady (WsClient.step c action) := by
  cases action with
  | connect project constructs => exact steady.connect project constructs
  | disconnect => exact .disconnect c
  | opened ws => exact steady.opened ws
  | message ws data =>
      simp only [WsClient.step]
      split
      · exact ⟨steady.hopeful, steady.disconnected, steady.waiting⟩
      · exact steady
  | closing ws => exact steady.closing ws
  | closed ws => exact steady.closed ws
  | timer constructs =>
      simp only [WsClient.step]
      split_ifs
      · exact @steady_openSocket { c with reconnectTimer := false } steady.disconnected (fun running => by cases running)
          constructs
      · exact steady

def Connected (c : Client) (project : String) : Prop := Holds c project .open ∧ c.status = .connected

theorem connected_of_opened {c : Client} {project : String} {ws : Nat} (is : c.socket = some ws)
    (found : c.sockets[ws]? = some ⟨project, .connecting, true⟩) : Connected (WsClient.step c (.opened ws)) project := by
  refine ⟨⟨ws, ?_, ?_⟩, ?_⟩
  · simp [WsClient.step, found, Client.modify, is]
  · simp [WsClient.step, found, Client.modify]
  · simp [WsClient.step, found]

theorem connected_of_timer {c : Client} {project : String} (wanted : c.pendingProject = some project)
    (running : c.reconnectTimer = true) :
    Connected (Machine.run WsClient.step c [.timer true, .opened c.sockets.length]) project := by
  refine connected_of_opened ?_ ?_
  · simp [WsClient.step, running, Client.openSocket, wanted]
  · simp [WsClient.step, running, Client.openSocket, wanted]

theorem running_of_closed {c : Client} {project name : String} {ws : Nat} {readyState : ReadyState}
    (wanted : c.pendingProject = some project) (closes : readyState ≠ .closed)
    (found : c.sockets[ws]? = some ⟨name, readyState, true⟩) :
    (WsClient.step c (.closed ws)).pendingProject = some project ∧ (WsClient.step c (.closed ws)).reconnectTimer = true := by
  have after : WsClient.step c (.closed ws) = (c.modify ws fun s => { s with readyState := .closed }).onclose ws := by
    simp [WsClient.step, found, closes]
  obtain ⟨-, pending, -, timer⟩ := onclose_fields (c.modify ws fun s => { s with readyState := .closed }) ws
  have still : (c.modify ws fun s => { s with readyState := .closed }).pendingProject = some project := wanted
  rw [after, pending, timer, still]
  exact ⟨rfl, Bool.or_true _⟩

/-- The events of the browser that bring a client back: a socket closes, the timer fires, and a socket opens. -/
def Recovers : Action → Prop
  | .timer constructs => constructs = true
  | .opened _ | .closed _ => True
  | _ => False

/-- However calls and events came, a client that wants a project is connected to it, or will be after at most the close
event of its socket, the timer and one socket that opens; and only a client that wants none is disconnected. -/
theorem run_recovers (actions : List Action) :
    let c := Machine.run WsClient.step Client.initial actions
    (c.status = .disconnected → c.pendingProject = none) ∧
      ∀ project, c.pendingProject = some project → ∃ recovery : List Action, recovery.length ≤ 3 ∧
        (∀ action ∈ recovery, Recovers action) ∧ Connected (Machine.run WsClient.step c recovery) project := by
  intro c
  have steady : Steady c := Machine.run_keeps Steady (fun _ action steady => steady.step action) actions .initial
  refine ⟨steady.disconnected, fun project wanted => ?_⟩
  rcases steady.hopeful project wanted with running | (⟨ws, is, found⟩ | ⟨ws, -, found⟩) | connected
  · exact ⟨[.timer true, .opened c.sockets.length], by simp, by simp [Recovers], connected_of_timer wanted running⟩
  · exact ⟨[.opened ws], by simp, by simp [Recovers], connected_of_opened is found⟩
  · obtain ⟨still, running⟩ := running_of_closed wanted (fun same => by cases same) found
    refine ⟨[.closed ws, .timer true, .opened (WsClient.step c (.closed ws)).sockets.length], le_rfl, ?_, ?_⟩
    · simp [Recovers]
    · exact connected_of_timer still running
  · exact ⟨[], by simp, by simp, connected⟩

theorem run_recovers_sample :
    let c := Machine.run WsClient.step Client.initial
      [.connect "web" true, .opened 0, .closed 0, .timer false, .timer true, .opened 1, .closing 1]
    ∃ recovery : List Action, recovery.length ≤ 3 ∧ (∀ action ∈ recovery, Recovers action) ∧
      Connected (Machine.run WsClient.step c recovery) "web" :=
  (run_recovers [.connect "web" true, .opened 0, .closed 0, .timer false, .timer true, .opened 1, .closing 1]).2 "web" rfl

end Errex.Proof.WsClient
