import Errex.Model.Fanout
import Errex.Proof.Live

/-!
# What a lagging connection still shows

A connection that lags loses messages, which the metric counts, but never the order of the others. Once it has caught up,
it shows every issue whose last message it has not missed as the table has it.
-/

namespace Errex.Proof.Fanout
open Proof.Live
open Foundation Foundation.Replica Foundation.Broadcast Model Model.Fanout Store Issues

def subject (m : ServerMessage) : Option Int := (update m).map (·.id)

/-- The last message about an issue that the connection has taken was one that it missed. -/
def Missed (taken : List (ServerMessage × Bool)) (id : Int) : Prop :=
  ∃ m, latest (subject ·.1) (some id) taken = some (m, false)

def lost (c : Client) : Nat := c.taken.countP fun t => !t.2

theorem subject_some {m : ServerMessage} {id : Int} (about : subject m = some id) :
    ∃ issue, update m = some issue ∧ issue.id = id := Option.map_eq_some_iff.mp about

theorem latest_subject (id : Int) (messages : List ServerMessage) :
    (latest subject (some id) messages).bind update = latest Issue.id id (messages.filterMap update) := by
  induction messages with
  | nil => rfl
  | cons m messages ih =>
      cases carried : update m with
      | none =>
          rw [List.filterMap_cons_none carried, ← ih, latest]
          simp [subject, carried]
      | some issue =>
          rw [List.filterMap_cons_some carried, latest, latest, ← ih]
          cases later : latest subject (some id) messages with
          | none =>
              by_cases same : issue.id = id <;> simp [subject, carried, same]
          | some m' =>
              obtain ⟨-, about⟩ := mem_of_latest later
              obtain ⟨issue', carried', -⟩ := subject_some about
              simp [carried']

theorem latest_flagged (k : Option Int) (messages : List ServerMessage) (got : Bool) :
    latest (fun t : ServerMessage × Bool => subject t.1) k (messages.map (·, got)) =
      (latest subject k messages).map (·, got) := by
  induction messages with
  | nil => rfl
  | cons m messages ih =>
      rw [List.map_cons, latest, latest, ih]
      cases latest subject k messages with
      | some later => rfl
      | none =>
          rw [Option.map_none, Option.none_or, Option.none_or]
          split_ifs <;> rfl

theorem missed_append_of_none (taken : List (ServerMessage × Bool)) {messages : List ServerMessage} (got : Bool) {id : Int}
    (none : latest subject (some id) messages = none) :
    Missed (taken ++ messages.map (·, got)) id ↔ Missed taken id := by
  unfold Missed
  rw [latest_append, latest_flagged, none, Option.map_none, Option.none_or]

/-- But for the messages that it has missed and those still to come, the connection shows the table after its socket. -/
def Knows (hub : Hub) (c : Client) : Prop :=
  c.loaded = true → ∀ id, ¬ Missed c.taken id → latest subject (some id) (hub.sent.drop c.next) = none →
    Option.Rel Reads ((c.socket.foldl View.handle c.view).byId.find? id) (issueOfId id hub.db)

structure Lossy (hub : Hub) : Prop where
  sound : Integrity hub.db
  carries : hub.fanout.Carries hub.sent
  updates : Updates hub.sent
  current : Current Issue.id Reads (hub.sent.filterMap update) (issueOfId · hub.db)
  follows : ∀ c ∈ hub.clients, Follows hub.sent c.next c.taken
  knows : ∀ c ∈ hub.clients, Knows hub c
  counted : hub.wsLaggedTotal = (hub.clients.map lost).sum

variable {hub : Hub}

theorem Lossy.initial {db : Db} (sound : Integrity db) : Lossy (.initial db) where
  sound := sound
  carries := Carries.new FANOUT_CHANNEL_CAPACITY
  updates _ none := absurd none List.not_mem_nil
  current := Current.nil
  follows _ none := absurd none List.not_mem_nil
  knows _ none := absurd none List.not_mem_nil
  counted := rfl

theorem Lossy.send (lossy : Lossy hub) {db : Db} (sound : Integrity db) {messages : List ServerMessage}
    (updates : Updates messages) (announced : Announced (messages.filterMap update) hub.db db) :
    Lossy ({ hub with db }.send messages) where
  sound := sound
  carries := lossy.carries.sendAll messages
  updates := lossy.updates.append updates
  current := by
    simp only [Hub.send, List.filterMap_append]
    exact lossy.current.announce announced
  follows c mem := (lossy.follows c mem).send messages
  knows c mem loaded id heard nothing := by
    have inside := (lossy.follows c mem).inside
    simp only [Hub.send, List.drop_append_of_le_length inside, latest_append, Option.or_eq_none_iff] at nothing
    obtain ⟨new, old⟩ := nothing
    have same : issueOfId id db = issueOfId id hub.db := announced.others id (by rw [← latest_subject, new]; rfl)
    have shown := lossy.knows c mem loaded id heard old
    rwa [← same] at shown
  counted := lossy.counted

theorem Lossy.set (lossy : Lossy hub) {client : Nat} {c c' : Client} (here : hub.clients[client]? = some c) (more : Nat)
    (follows : Follows hub.sent c'.next c'.taken) (knows : Knows hub c') (counts : lost c' = lost c + more) :
    Lossy { hub with clients := hub.clients.set client c', wsLaggedTotal := hub.wsLaggedTotal + more } where
  sound := lossy.sound
  carries := lossy.carries
  updates := lossy.updates
  current := lossy.current
  follows other mem := by
    rcases List.mem_or_eq_of_mem_set mem with old | rfl
    · exact lossy.follows other old
    · exact follows
  knows other mem := by
    rcases List.mem_or_eq_of_mem_set mem with old | rfl
    · exact lossy.knows other old
    · exact knows
  counted := by
    obtain ⟨inside, rfl⟩ := List.getElem?_eq_some_iff.mp here
    have before : (hub.clients.map lost).sum =
        ((hub.clients.take client).map lost).sum + (lost hub.clients[client] +
          ((hub.clients.drop (client + 1)).map lost).sum) := by
      rw [← List.sum_cons, ← List.map_cons, ← List.drop_eq_getElem_cons inside, ← List.sum_append, ← List.map_append,
        List.take_append_drop]
    simp only [List.set_eq_take_append_cons_drop, if_pos inside, List.map_append, List.map_cons, List.sum_append,
      List.sum_cons, counts]
    rw [lossy.counted, before]
    omega

theorem Lossy.got (lossy : Lossy hub) {c : Client} (mem : c ∈ hub.clients) {m : ServerMessage}
    (split : hub.sent.drop c.next = m :: hub.sent.drop (c.next + 1)) :
    Knows hub { c with next := c.next + 1, socket := c.socket ++ [m], taken := c.taken ++ [(m, true)] } := by
  intro loaded id heard nothing
  obtain ⟨issue, carries⟩ := Option.isSome_iff_exists.mp
    (lossy.updates m (List.mem_of_mem_drop (split ▸ List.mem_cons_self)))
  have shown : (View.handle (c.socket.foldl View.handle c.view) m).byId.find? =
      replay Issue.id (c.socket.foldl View.handle c.view).byId.find? [issue] := by
    have single : Updates [m] := by simp [Updates, carries]
    simpa [carries] using find?_foldl_handle (c.socket.foldl View.handle c.view) single
  simp only [List.foldl_append, List.foldl_cons, List.foldl_nil, shown]
  by_cases about : issue.id = id
  · -- Nothing is to come about the issue, so this message was the last one about it.
    subst about
    have last : latest Issue.id issue.id (hub.sent.filterMap update) = some issue := by
      have subject_m : subject m = some issue.id := by simp [subject, carries]
      rw [← latest_subject, ← List.take_append_drop c.next hub.sent, split, latest_append, latest, nothing, Option.none_or,
        if_pos subject_m, Option.some_or]
      exact carries
    obtain ⟨row, stored, reads⟩ := lossy.current issue.id issue last
    rw [show issueOfId issue.id hub.db = some row from stored, replay, latest, latest, if_pos rfl]
    exact .some reads
  · have apart : subject m ≠ some id := by simp [subject, carries, about]
    have before : latest subject (some id) (hub.sent.drop c.next) = none := by
      rw [split, latest, nothing, if_neg apart, Option.or_none]
    have silent : latest subject (some id) [m] = none := by
      rw [latest, latest, if_neg apart, Option.or_none]
    have same : Missed (c.taken ++ [(m, true)]) id ↔ Missed c.taken id := missed_append_of_none c.taken true silent
    rw [replay, latest, latest, if_neg about, Option.or_none, Option.none_or]
    exact lossy.knows c mem loaded id (same.not.mp heard) before

theorem Lossy.lagged (lossy : Lossy hub) {c : Client} (mem : c ∈ hub.clients) {next : Nat} {messages : List ServerMessage}
    (split : hub.sent.drop c.next = messages ++ hub.sent.drop next) :
    Knows hub { c with next, taken := c.taken ++ messages.map (·, false) } := by
  intro loaded id heard nothing
  cases about : latest subject (some id) messages with
  | some m =>
      refine absurd ⟨m, ?_⟩ heard
      rw [latest_append, latest_flagged, about, Option.map_some, Option.some_or]
  | none =>
      refine lossy.knows c mem loaded id ((missed_append_of_none c.taken false about).not.mp heard) ?_
      rw [split, latest_append, nothing, about, Option.or_none]

theorem Lossy.recv (lossy : Lossy hub) {client : Nat} {c : Client} (here : hub.clients[client]? = some c) :
    Lossy (Model.Fanout.recv hub client c) := by
  have mem := List.mem_of_getElem? here
  have follows := lossy.follows c mem
  unfold Model.Fanout.recv
  rcases lossy.carries.recv_cases c.next with ⟨m, later, got, split, rfl⟩ | ⟨behind, short, inside, split⟩ | ⟨got, -⟩
  · rw [got]
    have within : c.next + 1 ≤ hub.sent.length := by
      have shorter := congrArg List.length split
      rw [List.length_drop, List.length_cons] at shorter
      omega
    exact lossy.set here 0 (follows.take [m] true within split) (lossy.got mem split) (by simp [lost])
  · rw [behind]
    refine lossy.set here _ (follows.take _ false inside split) (lossy.lagged mem split) ?_
    have count : ((hub.sent.drop c.next).take (hub.fanout.oldest - c.next)).length = hub.fanout.oldest - c.next := by
      rw [List.length_take, List.length_drop]
      omega
    have all : (((hub.sent.drop c.next).take (hub.fanout.oldest - c.next)).map (·, false)).countP (fun t => !t.2) =
        hub.fanout.oldest - c.next := by
      rw [List.countP_map]
      simpa [Function.comp_def] using count
    simp only [lost, List.countP_append, all]
  · rw [got]
    exact lossy

theorem Lossy.set_same (lossy : Lossy hub) {client : Nat} {c c' : Client} (here : hub.clients[client]? = some c)
    (next : c'.next = c.next) (taken : c'.taken = c.taken) (knows : Knows hub c') :
    Lossy { hub with clients := hub.clients.set client c' } := by
  have follows := lossy.follows c (List.mem_of_getElem? here)
  rw [← next, ← taken] at follows
  exact lossy.set here 0 follows knows (by rw [lost, taken, lost, Nat.add_zero])

theorem Lossy.load (lossy : Lossy hub) {client : Nat} {c : Client} (here : hub.clients[client]? = some c) {now : UtcNow}
    {issues : List Issue} {db : Db} (loaded : loadIssues now hub.db = .ok (issues, db)) :
    Lossy { hub with clients := hub.clients.set client { c with loaded := true, socket := Live.greeting issues } } := by
  refine lossy.set_same here rfl rfl fun _ id _ _ => ?_
  have snapshot : ((Live.greeting issues).foldl View.handle c.view).byId.find? = (latest Issue.id · issues) := by
    refine (find?_foldl_set .empty issues).trans ?_
    funext k
    rw [replay, Table.find?_empty, Option.or_none]
  rw [snapshot]
  exact loadIssues_mirrors lossy.sound loaded id

theorem Lossy.subscribe (lossy : Lossy hub) (view : View) :
    Lossy { hub with clients := hub.clients ++ [⟨false, hub.fanout.pos, [], view, []⟩] } where
  sound := lossy.sound
  carries := lossy.carries
  updates := lossy.updates
  current := lossy.current
  follows c mem := by
    rcases List.mem_append.mp mem with old | new
    · exact lossy.follows c old
    · obtain rfl := List.mem_singleton.mp new
      rw [lossy.carries.pos]
      exact .subscribe hub.sent
  knows c mem := by
    rcases List.mem_append.mp mem with old | new
    · exact lossy.knows c old
    · obtain rfl := List.mem_singleton.mp new
      exact nofun
  counted := by
    rw [lossy.counted]
    simp [lost]

theorem Lossy.step (lossy : Lossy hub) (action : Action) : Lossy (Model.Fanout.step hub action) := by
  cases action with
  | digest now received batch =>
      simp only [Model.Fanout.step]
      split
      · rename_i results db done
        obtain ⟨updates, issues⟩ := processBatch_updates results
        refine lossy.send ?_ updates ?_
        · exact upsertBatchWithEvents_keeps (Integrity.upsertInput_keeps _) _ _ _ _ _ done lossy.sound
        · rw [issues]
          exact batch_announced now _ lossy.sound done
      · exact lossy
  | putStatus now issueId status =>
      simp only [Model.Fanout.step]
      split
      · rename_i issue db done
        refine lossy.send ?_ (by simp [Updates, update]) (setStatus_announced done)
        exact setStatus_keeps (fun _ sound => sound.updateStatus _ _) _ _ _ done lossy.sound
      · exact lossy
  | subscribe view => exact lossy.subscribe view
  | load client now =>
      simp only [Model.Fanout.step]
      split
      · rename_i c issues db here loaded
        split_ifs
        · exact lossy
        · exact lossy.load here loaded
      · exact lossy
  | recv client =>
      simp only [Model.Fanout.step]
      split
      · rename_i c here
        split_ifs
        · exact lossy.recv here
        · exact lossy
      · exact lossy
  | consume client =>
      simp only [Model.Fanout.step]
      split
      · rename_i next m socket view taken here
        have knows := lossy.knows _ (List.mem_of_getElem? here)
        -- The message is the first one of the fold.
        exact lossy.set_same here rfl rfl (show Knows hub ⟨true, next, socket, view.handle m, taken⟩ from knows)
      · exact lossy

/-- From any database that calls lead to: whatever order commits, subscriptions, snapshots and deliveries come in, a
connection has taken the messages since it subscribed one after another, the metric counts those it has missed, and when
nothing is left to take or to handle, it shows every issue whose last message it has not missed as the table has it. -/
theorem run_shows_what_was_not_missed (argon2 : Argon2) (calls : List (World × Call)) (actions : List Action) :
    let hub := Machine.run Model.Fanout.step (.initial (performAll (exec argon2) calls Db.empty)) actions
    hub.wsLaggedTotal = (hub.clients.map lost).sum ∧
      ∀ c ∈ hub.clients, c.taken.map Prod.fst ++ hub.sent.drop c.next <:+ hub.sent ∧
        (c.loaded → c.socket = [] → c.next = hub.sent.length → ∀ id, ¬ Missed c.taken id →
          Option.Rel Reads (c.view.byId.find? id) (issueOfId id hub.db)) := by
  intro hub
  have sound : Integrity (performAll (exec argon2) calls Db.empty) :=
    performAll_invariant (exec argon2) Integrity (exec_integrity argon2) calls Integrity.empty
  have lossy : Lossy hub := Machine.run_keeps Lossy (fun _ action lossy => lossy.step action) actions (.initial sound)
  refine ⟨lossy.counted, fun c mem => ⟨(lossy.follows c mem).whole, fun loaded empty caught id heard => ?_⟩⟩
  have knows := lossy.knows c mem loaded id heard (by rw [caught, List.drop_length]; rfl)
  rwa [empty] at knows

theorem run_shows_what_was_not_missed_sample :
    let event : Digest.IngestEvent := ⟨"web", "f", "boom", none, none, "E", "f:1", noon, "e", "\x7b\x7d"⟩
    let hub := Machine.run Model.Fanout.step (.initial (performAll (exec plainArgon2) [] Db.empty))
      ([.digest noon (fun _ => noonReceived) [event], .subscribe .empty, .load 0 noon] ++
        List.replicate 65 (.putStatus noon 1 .muted) ++ List.replicate 65 (.recv 0) ++ List.replicate 66 (.consume 0))
    ∃ c ∈ hub.clients, lost c = 1 ∧ Option.Rel Reads (c.view.byId.find? 1) (issueOfId 1 hub.db) := by
  intro event hub
  have ready : (hub.clients[0]?).any (fun c => c.loaded && c.socket.isEmpty && c.next == hub.sent.length &&
      lost c == 1 && (latest (subject ·.1) (some 1) c.taken).any (·.2)) = true := by decide +kernel
  obtain ⟨c, here, ready⟩ := Option.any_eq_true _ _ |>.mp ready
  simp only [Bool.and_eq_true, List.isEmpty_iff, beq_iff_eq, Option.any_eq_true] at ready
  obtain ⟨⟨⟨⟨loaded, empty⟩, caught⟩, one⟩, t, last, got⟩ := ready
  have mem : c ∈ hub.clients := List.mem_of_getElem? here
  refine ⟨c, mem, one, ((run_shows_what_was_not_missed plainArgon2 [] _).2 c mem).2 loaded empty caught 1 ?_⟩
  rintro ⟨m, none⟩
  cases last.symm.trans none
  cases got

end Errex.Proof.Fanout
