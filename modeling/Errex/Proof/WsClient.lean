import Errex.Model.WsClient

/-!
# Live sockets of the SPA

`connect` clears the handlers of the socket it replaces, `disconnect` does not: a socket that it
closed keeps them until its close event. The client has one live socket at most as long as
`connect` is not called before that event (`run_atMostOneLive`).
-/

namespace Errex.Proof.WsClient
open Foundation Model Model.WsClient

def Socket.live (s : Socket) : Bool := s.readyState != .closed && s.handlers

def Live (c : Client) (ws : Nat) : Prop := (c.sockets[ws]?).any Socket.live

def AtMostOneLive (c : Client) : Prop := ∀ ws ws', Live c ws → Live c ws' → ws = ws'

instance (c : Client) (ws : Nat) : Decidable (Live c ws) := inferInstanceAs (Decidable (_ = true))

theorem lt_of_live {c : Client} {ws : Nat} (live : Live c ws) : ws < c.sockets.length := by
  by_contra outside
  simp [Live, List.getElem?_eq_none (Nat.not_lt.mp outside)] at live

theorem live_of_modify {c : Client} {ws ws' : Nat} {f : Socket → Socket}
    (dims : ∀ s, c.sockets[ws]? = some s → Socket.live (f s) → Socket.live s)
    (live : Live (c.modify ws f) ws') : Live c ws' := by
  simp only [Live, Client.modify, List.getElem?_modify] at live ⊢
  cases found : c.sockets[ws']? with
  | none => simp [found] at live
  | some s =>
      by_cases same : ws = ws'
      · subst same
        simpa using dims s found (by simpa [found] using live)
      · simpa [found, same] using live

theorem not_live_of_modify {c : Client} {ws : Nat} {f : Socket → Socket}
    (dark : ∀ s, Socket.live (f s) = false) : ¬ Live (c.modify ws f) ws := by
  simp only [Live, Client.modify, List.getElem?_modify]
  cases c.sockets[ws]? <;> simp [dark]

theorem live_of_constructed {sockets : List Socket} {c : Client} {project : String} {ws : Nat}
    (grown : c.sockets = sockets ++ [⟨project, .connecting, true⟩]) (live : Live c ws) :
    ws = sockets.length ∨ (sockets[ws]?).any Socket.live := by
  rw [Live, grown, List.getElem?_append] at live
  split_ifs at live with inside
  · exact .inr live
  · left
    have last : ws < sockets.length + 1 := by
      by_contra outside
      simp [List.getElem?_eq_none (show [Socket.mk project .connecting true].length ≤ ws - sockets.length by
        simp only [List.length_singleton]; omega)] at live
    omega

theorem live_close (s : Socket) : Socket.live s.close = Socket.live s := by
  obtain ⟨project, readyState, handlers⟩ := s
  cases readyState <;> rfl

/-- A live socket is the current one, unless the client is disconnected and the socket is closing;
while the timer runs there is none. -/
structure Sound (c : Client) : Prop where
  unique : AtMostOneLive c
  current : c.pendingProject.isSome → ∀ ws, Live c ws → c.socket = some ws
  waiting : c.reconnectTimer → ∀ ws, ¬ Live c ws
  idle : c.pendingProject = none → c.socket = none ∧ c.reconnectTimer = false

theorem Sound.initial : Sound Client.initial := by
  refine ⟨fun ws ws' live => ?_, nofun, nofun, fun _ => ⟨rfl, rfl⟩⟩
  simp [Live, Client.initial] at live

theorem Sound.of_fewer {c c' : Client} (sound : Sound c) (fewer : ∀ ws, Live c' ws → Live c ws)
    (socket : c'.socket = c.socket) (pending : c'.pendingProject = c.pendingProject)
    (timer : c'.reconnectTimer = c.reconnectTimer) : Sound c' where
  unique ws ws' live live' := sound.unique ws ws' (fewer ws live) (fewer ws' live')
  current some ws live := socket.trans (sound.current (pending ▸ some) ws (fewer ws live))
  waiting running ws live := sound.waiting (timer ▸ running) ws (fewer ws live)
  idle none := by
    rw [socket, timer]
    exact sound.idle (pending ▸ none)

/-- `connect` is not called while a socket that `disconnect` closed awaits its close event. -/
def SparesClosing (c : Client) : Action → Prop
  | .connect _ _ => ∀ ws, Live c ws → c.socket = some ws
  | _ => True

theorem sound_openSocket {c : Client} (dark : ∀ ws, ¬ Live c ws) (pending : c.pendingProject.isSome)
    (stopped : c.reconnectTimer = false) (constructs : Bool) : Sound (c.openSocket constructs) := by
  obtain ⟨project, named⟩ := Option.isSome_iff_exists.mp pending
  simp only [Client.openSocket, named]
  split_ifs
  · have only : ∀ ws, Live { c with
        sockets := c.sockets ++ [⟨project, .connecting, true⟩], socket := some c.sockets.length } ws →
        ws = c.sockets.length := by
      intro ws live
      rcases live_of_constructed rfl live with last | old
      · exact last
      · exact absurd old (dark ws)
    refine ⟨fun ws ws' live live' => ?_, fun _ ws live => ?_, fun running => ?_, fun idle => ?_⟩
    · rw [only ws live, only ws' live']
    · rw [only ws live]
    · simp [stopped] at running
    · cases idle
  · refine ⟨fun ws ws' live => absurd live (dark ws), fun _ ws live => absurd live (dark ws),
      fun _ => dark, fun idle => ?_⟩
    exact absurd (named.symm.trans idle) (by simp)

theorem strip_dark {c : Client} (spares : ∀ ws, Live c ws → c.socket = some ws) (ws : Nat) :
    ¬ Live c.strip ws := by
  intro live
  cases current : c.socket with
  | none =>
      simp only [Client.strip, current] at live
      simpa [current] using spares ws live
  | some old =>
      simp only [Client.strip, current] at live
      have before : Live c ws := live_of_modify (fun s _ live => by
        rw [live_close] at live
        simp [Socket.live] at live) live
      obtain rfl : old = ws := by simpa [current] using spares ws before
      exact not_live_of_modify (fun s => by rw [live_close]; simp [Socket.live]) live

theorem strip_fields (c : Client) :
    c.strip.pendingProject = c.pendingProject ∧ c.strip.reconnectTimer = c.reconnectTimer := by
  unfold Client.strip
  split <;> exact ⟨rfl, rfl⟩

theorem Sound.connect {c : Client} (sound : Sound c) (project : String) (constructs : Bool)
    (spares : ∀ ws, Live c ws → c.socket = some ws) : Sound (c.connect project constructs) := by
  unfold Client.connect
  split_ifs
  · exact ⟨sound.unique, sound.current, sound.waiting, sound.idle⟩
  · refine sound_openSocket ?_ ?_ rfl constructs
    · exact strip_dark (c := { c with pendingProject := some project, current := project }) spares
    · have fields := strip_fields { c with pendingProject := some project, current := project }
      simp [fields.1]

theorem Sound.disconnect {c : Client} (sound : Sound c) : Sound c.disconnect := by
  have before : ∀ ws, Live c.disconnect ws → Live c ws := by
    intro ws live
    cases current : c.socket with
    | none =>
        simp only [Client.disconnect, current] at live
        exact live
    | some old =>
        simp only [Client.disconnect, current] at live
        exact live_of_modify (fun s _ live => by rwa [live_close] at live) live
  have stopped : c.disconnect.socket = none ∧ c.disconnect.reconnectTimer = false ∧
      c.disconnect.pendingProject = none := by
    unfold Client.disconnect
    cases current : c.socket with
    | none => exact ⟨current, rfl, rfl⟩
    | some old => exact ⟨rfl, rfl, rfl⟩
  refine ⟨fun ws ws' live live' => sound.unique ws ws' (before ws live) (before ws' live'), fun pending => ?_,
    fun running => ?_, fun _ => ⟨stopped.1, stopped.2.1⟩⟩
  · simp [stopped.2.2] at pending
  · simp [stopped.2.1] at running

theorem onclose_fields (c : Client) (ws : Nat) :
    (c.onclose ws).sockets = c.sockets ∧ (c.onclose ws).pendingProject = c.pendingProject ∧
      (c.onclose ws).socket = (if c.socket = some ws then none else c.socket) ∧
      (c.onclose ws).reconnectTimer = (c.reconnectTimer || c.pendingProject.isSome) := by
  unfold Client.onclose
  by_cases current : c.socket = some ws <;> cases pending : c.pendingProject <;>
    simp [current, pending, Client.scheduleReconnect]

theorem Sound.onclose {c : Client} (sound : Sound c) {ws : Nat} (live : Live c ws) :
    Sound ((c.modify ws fun s => { s with readyState := .closed }).onclose ws) := by
  obtain ⟨sockets, pending, socket, timer⟩ :=
    onclose_fields (c.modify ws fun s => { s with readyState := .closed }) ws
  have dark : ∀ ws', ¬ Live ((c.modify ws fun s => { s with readyState := .closed }).onclose ws) ws' := by
    intro ws' live'
    rw [Live, sockets, ← Live] at live'
    obtain rfl := sound.unique ws ws' live (live_of_modify (fun s _ live => by simp [Socket.live] at live) live')
    exact not_live_of_modify (fun s => by simp [Socket.live]) live'
  refine ⟨fun ws₁ _ live₁ => absurd live₁ (dark ws₁), fun _ ws₁ live₁ => absurd live₁ (dark ws₁),
    fun _ => dark, fun idle => ?_⟩
  have idle : c.pendingProject = none := pending.symm.trans idle
  obtain ⟨none, stopped⟩ := sound.idle idle
  rw [socket, timer]
  simp [Client.modify, none, stopped, idle]

theorem Sound.step {c : Client} (sound : Sound c) (action : Action) (spares : SparesClosing c action) :
    Sound (step c action) := by
  cases action with
  | connect project constructs => exact sound.connect project constructs spares
  | disconnect => exact sound.disconnect
  | opened ws =>
      simp only [WsClient.step]
      split
      · rename_i project handlers found
        have fewer : ∀ ws', Live (c.modify ws fun s => { s with readyState := .open }) ws' → Live c ws' := by
          intro ws' live
          refine live_of_modify (fun s here live => ?_) live
          cases found.symm.trans here
          exact live
        split_ifs
        · exact sound.of_fewer fewer rfl rfl rfl
        · exact sound.of_fewer fewer rfl rfl rfl
      · exact sound
  | message ws data =>
      simp only [WsClient.step]
      split
      · exact sound.of_fewer (fun _ live => live) rfl rfl rfl
      · exact sound
  | closing ws =>
      simp only [WsClient.step]
      split
      · rename_i project handlers found
        refine sound.of_fewer (fun ws' live => live_of_modify (fun s here live => ?_) live) rfl rfl rfl
        cases found.symm.trans here
        exact live
      · exact sound
  | closed ws =>
      simp only [WsClient.step]
      split
      · rename_i s found
        split_ifs with already heard
        · exact sound
        · exact sound.onclose (by simp [Live, found, Socket.live, already, heard])
        · refine sound.of_fewer (fun ws' live => live_of_modify (fun s _ live => ?_) live) rfl rfl rfl
          simp [Socket.live] at live
      · exact sound
  | timer constructs =>
      simp only [WsClient.step]
      split_ifs with running
      · refine sound_openSocket (c := { c with reconnectTimer := false }) (sound.waiting running) ?_ rfl constructs
        by_contra idle
        have idle : c.pendingProject = none := Option.not_isSome_iff_eq_none.mp idle
        simp [(sound.idle idle).2] at running
      · exact sound

instance (c : Client) (action : Action) : Decidable (SparesClosing c action) :=
  match action with
  | .connect _ _ => decidable_of_iff (∀ ws < c.sockets.length, Live c ws → c.socket = some ws)
      ⟨fun all ws live => all ws (lt_of_live live) live, fun all ws _ live => all ws live⟩
  | .disconnect | .opened _ | .message _ _ | .closing _ | .closed _ | .timer _ => .isTrue trivial

/-- In every run in which `connect` waits for the close events of the sockets that `disconnect`
closed, at most one socket that is not closed has a handler for messages. -/
theorem run_atMostOneLive (actions : List Action)
    (permitted : Machine.Permits step SparesClosing Client.initial actions) :
    AtMostOneLive (Machine.run step Client.initial actions) :=
  (Machine.run_invariant Sound (fun _ action sound spares => sound.step action spares) permitted .initial).unique

theorem run_atMostOneLive_sample : AtMostOneLive (Machine.run step Client.initial
    [.connect "web" true, .opened 0, .disconnect, .closed 0, .connect "web" true, .opened 1]) :=
  run_atMostOneLive _ (by decide)

theorem connect_doubles {c : Client} {ws : Nat} {project : String} (live : Live c ws)
    (other : c.socket ≠ some ws) (away : c.connected project = false) :
    ¬ AtMostOneLive (c.connect project true) := by
  intro unique
  let torn := { c with pendingProject := some project, current := project }.strip
  have stays : Live torn ws := by
    cases current : c.socket with
    | none =>
        simp only [torn, Client.strip, current]
        exact live
    | some old =>
        have apart : old ≠ ws := fun same => other (current.trans (congrArg some same))
        simpa [torn, Client.strip, current, Live, Client.modify, List.getElem?_modify, apart] using live
  have after : c.connect project true = { torn with
      reconnectTimer := false, status := .connecting,
      sockets := torn.sockets ++ [⟨project, .connecting, true⟩], socket := some torn.sockets.length } := by
    have pending : torn.pendingProject = some project := (strip_fields _).1
    simp only [Client.connect, away, Client.openSocket]
    rw [if_neg (by simp)]
    split
    · rename_i none
      exact absurd (pending.symm.trans none) (by simp)
    · rename_i named
      obtain rfl : project = _ := Option.some.inj (pending.symm.trans named)
      rfl
  have inside := lt_of_live stays
  have old : Live (c.connect project true) ws := by
    rw [after, Live, List.getElem?_append_left inside]
    exact stays
  have new : Live (c.connect project true) torn.sockets.length := by
    rw [after, Live, List.getElem?_append_right le_rfl, Nat.sub_self]
    rfl
  have := unique ws _ old new
  omega

/-- The late close event of a socket that `disconnect` closed starts the reconnect timer, and a
third socket opens beside the second: both are open and hear every message. -/
theorem run_doubles_live : ¬ ∀ actions : List Action, AtMostOneLive (Machine.run step Client.initial actions) := by
  intro unique
  have both := unique [.connect "web" true, .opened 0, .disconnect, .connect "web" true, .opened 1, .closed 0,
    .timer true, .opened 2] 1 2 (by decide) (by decide)
  exact absurd both (by decide)

end Errex.Proof.WsClient
