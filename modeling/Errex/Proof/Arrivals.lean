import Errex.Model.Arrivals
import Errex.Proof.DigestTask
import Errex.Proof.Spa.EventStream

/-!
# What the counters of the SPA count

Every update that a client handles is a call of `record`, and an update is an event that was digested or a change of
status. So the counters are right as long as no change of status is among them (`run_counts_iff`).
-/

namespace Errex.Proof.Arrivals
open Foundation Model Model.Arrivals Store Spa.EventStream EventStreamStore Proof.Spa.EventStream

def about : ServerMessage → Option Int
  | .issueCreated issue => some issue.id
  | .issueUpdated issue => some issue.id
  | .hello _ | .snapshot _ => none

def Origin.isDigested : Origin → Bool
  | .digested _ => true
  | .greeting | .triaged => false

def Origin.isTriaged : Origin → Bool
  | .triaged => true
  | .greeting | .digested _ => false

def events (issueId : Int) (sent : List Sent) : Nat :=
  sent.countP fun s => Origin.isDigested s.origin && about s.message == some issueId

def triages (issueId : Int) (sent : List Sent) : Nat :=
  sent.countP fun s => Origin.isTriaged s.origin && about s.message == some issueId

def records (issueId : Int) (since : Since) : Nat := since.recorded.countP fun (id, _) => id == issueId

def Labelled (s : Sent) : Prop := ∀ _ : s.origin = .greeting, about s.message = none

theorem labelled_greeting (issues : List Issue) : ∀ s ∈ (Live.greeting issues).map (Sent.mk .greeting), Labelled s := by
  intro s mem
  obtain ⟨message, inside, rfl⟩ := List.mem_map.mp mem
  intro _
  simp only [Live.greeting, List.mem_cons, List.not_mem_nil, or_false] at inside
  rcases inside with rfl | rfl <;> rfl

/-- The calls of `record` since the snapshot are those for the updates that were delivered, and what the event stream
holds was recorded since it was cleared. -/
structure Counts (c : Client) : Prop where
  queue : ∀ s ∈ c.queue, Labelled s
  delivered : ∀ since ∈ c.since, ∀ s ∈ since.delivered, Labelled s
  recorded : ∀ since ∈ c.since, since.recorded.map Prod.fst = since.delivered.filterMap fun s => about s.message
  stream : ∀ since ∈ c.since, ∃ before : EventStreamStore, c.stream = recordAll before.clear since.recorded

theorem Counts.subscribed (view : View) (stream : EventStreamStore) : Counts ⟨false, [], view, stream, none⟩ := by
  constructor
  · exact fun _ mem => absurd mem List.not_mem_nil
  all_goals
    rintro _ ⟨⟩

theorem Counts.enqueue {c : Client} (counts : Counts c) {messages : List Sent} (labelled : ∀ s ∈ messages, Labelled s) :
    Counts { c with queue := c.queue ++ messages } where
  queue s mem := (List.mem_append.mp mem).elim (counts.queue s) (labelled s)
  delivered := counts.delivered
  recorded := counts.recorded
  stream := counts.stream

theorem Counts.record {c : Client} (counts : Counts c) {s : Sent} (labelled : Labelled s) (when : ℚ) {issueId : Int}
    (update : about s.message = some issueId) : Counts (c.record when s issueId) where
  queue := counts.queue
  delivered since mem := by
    obtain ⟨before, there, rfl⟩ := Option.map_eq_some_iff.mp mem
    intro t inside
    rcases List.mem_append.mp inside with old | new
    · exact counts.delivered before there t old
    · rw [List.mem_singleton.mp new]
      exact labelled
  recorded since mem := by
    obtain ⟨before, there, rfl⟩ := Option.map_eq_some_iff.mp mem
    simp [counts.recorded before there, update]
  stream since mem := by
    obtain ⟨before, there, rfl⟩ := Option.map_eq_some_iff.mp mem
    obtain ⟨cleared, same⟩ := counts.stream before there
    refine ⟨cleared, ?_⟩
    simp only [Client.record, same, recordAll, List.foldl_append, List.foldl_cons, List.foldl_nil]

theorem Counts.handle {c : Client} (counts : Counts c) {s : Sent} (labelled : Labelled s) (when : ℚ) :
    Counts (c.handle when s) := by
  have viewed : Counts { c with view := c.view.handle s.message } :=
    ⟨counts.queue, counts.delivered, counts.recorded, counts.stream⟩
  unfold Client.handle
  cases message : s.message with
  | hello serverVersion =>
      rw [message] at viewed
      refine ⟨viewed.queue, fun since mem => ?_, fun since mem => ?_, fun since mem => ?_⟩
      · obtain ⟨before, there, rfl⟩ := Option.map_eq_some_iff.mp mem
        intro t inside
        rcases List.mem_append.mp inside with old | new
        · exact counts.delivered before there t old
        · rw [List.mem_singleton.mp new]
          exact labelled
      · obtain ⟨before, there, rfl⟩ := Option.map_eq_some_iff.mp mem
        simp [counts.recorded before there, message, about]
      · obtain ⟨before, there, rfl⟩ := Option.map_eq_some_iff.mp mem
        exact counts.stream before there
  | snapshot issues =>
      refine ⟨counts.queue, ?_, ?_, ?_⟩
      · rintro _ ⟨⟩ t inside
        exact absurd inside List.not_mem_nil
      · rintro _ ⟨⟩
        rfl
      · rintro _ ⟨⟩
        exact ⟨c.stream, rfl⟩
  | issueCreated issue =>
      rw [message] at viewed
      exact viewed.record labelled when (by rw [message]; rfl)
  | issueUpdated issue =>
      rw [message] at viewed
      exact viewed.record labelled when (by rw [message]; rfl)

def AllCount (hub : Hub) : Prop := ∀ c ∈ hub.clients, Counts c

theorem AllCount.send {hub : Hub} (all : AllCount hub) (db : Db) {messages : List Sent} (labelled : ∀ s ∈ messages, Labelled s) :
    AllCount ({ hub with db }.send messages) := by
  intro c mem
  obtain ⟨old, inside, rfl⟩ := List.mem_map.mp mem
  exact (all old inside).enqueue labelled

theorem AllCount.set {hub : Hub} (all : AllCount hub) {c : Client} (counts : Counts c) (client : Nat) :
    AllCount { hub with clients := hub.clients.set client c } := by
  intro other mem
  rcases List.mem_or_eq_of_mem_set mem with old | rfl
  · exact all other old
  · exact counts

theorem AllCount.step {hub : Hub} (all : AllCount hub) (action : Action) : AllCount (step hub action) := by
  cases action with
  | digest now received batch =>
      simp only [Arrivals.step]
      split
      · apply all.send
        intro s mem
        obtain ⟨pair, -, rfl⟩ := List.mem_map.mp mem
        rintro ⟨⟩
      · exact all
  | putStatus now issueId status =>
      simp only [Arrivals.step]
      split
      · apply all.send
        intro s mem
        rw [List.mem_singleton.mp mem]
        rintro ⟨⟩
      · exact all
  | subscribe view stream =>
      intro c mem
      rcases List.mem_append.mp mem with old | new
      · exact all c old
      · rw [List.mem_singleton.mp new]
        exact Counts.subscribed view stream
  | load client now =>
      simp only [Arrivals.step]
      split
      · rename_i queue view stream since issues db waiting loaded
        have counts := all _ (List.mem_of_getElem? waiting)
        apply all.set
        refine ⟨fun s mem => ?_, counts.delivered, counts.recorded, counts.stream⟩
        exact (List.mem_append.mp mem).elim (labelled_greeting issues s) (counts.queue s)
      · exact all
  | consume client when =>
      simp only [Arrivals.step]
      split
      · rename_i sent queue view stream since next
        have counts := all _ (List.mem_of_getElem? next)
        have rest : Counts ⟨true, queue, view, stream, since⟩ :=
          ⟨fun s mem => counts.queue s (List.mem_cons_of_mem _ mem), counts.delivered, counts.recorded, counts.stream⟩
        exact all.set (rest.handle (counts.queue sent List.mem_cons_self) when) client
      · exact all

theorem countP_updates {sent : List Sent} (labelled : ∀ s ∈ sent, Labelled s) (issueId : Int) :
    (sent.filterMap fun s => about s.message).countP (· == issueId) = events issueId sent + triages issueId sent := by
  induction sent with
  | nil => rfl
  | cons s sent ih =>
      have rest := ih fun t mem => labelled t (List.mem_cons_of_mem _ mem)
      have first := labelled s List.mem_cons_self
      obtain ⟨origin, message⟩ := s
      simp only [events, triages] at rest ⊢
      cases update : about message with
      | none => simp [update, rest]
      | some id =>
          by_cases same : id = issueId
          · cases origin with
            | greeting => cases (first rfl).symm.trans update
            | digested event => simp [update, rest, same, Origin.isDigested, Origin.isTriaged]; omega
            | triaged => simp [update, rest, same, Origin.isDigested, Origin.isTriaged]; omega
          · simp [update, rest, same]

theorem Counts.records_eq {c : Client} (counts : Counts c) {since : Since} (there : since ∈ c.since) (issueId : Int) :
    records issueId since = events issueId since.delivered + triages issueId since.delivered := by
  have calls : records issueId since = (since.recorded.map Prod.fst).countP (· == issueId) := by
    rw [List.countP_map]
    rfl
  rw [calls, counts.recorded since there, countP_updates (counts.delivered since there)]

theorem run_counts (db : Db) (actions : List Action) : AllCount (Machine.run step ⟨db, []⟩ actions) :=
  Machine.run_keeps AllCount (fun _ action all => all.step action) actions fun _ none_ => absurd none_ List.not_mem_nil

/-- In every run of batches, changes of status and connections, a client has called `record` for an issue since its last
snapshot as often as events of it were delivered, exactly when no change of its status was delivered. -/
theorem run_counts_iff (db : Db) (actions : List Action) :
    ∀ c ∈ (Machine.run step ⟨db, []⟩ actions).clients, ∀ since ∈ c.since, ∀ issueId,
      records issueId since = events issueId since.delivered ↔
        ∀ s ∈ since.delivered, Origin.isTriaged s.origin = true → about s.message ≠ some issueId := by
  intro c mem since there issueId
  rw [(run_counts db actions c mem).records_eq there issueId, Nat.add_eq_left, triages, List.countP_eq_zero]
  simp

def mutedRun : List Action :=
  let event : Digest.IngestEvent := ⟨"web", "f", "boom", none, none, "E", "f:1", noon, "e", "\x7b\x7d"⟩
  [.digest noon (fun _ => noonReceived) [event], .subscribe .empty (clear ⟨[], fun _ => none, none⟩), .load 0 noon,
    .consume 0 0, .consume 0 0, .putStatus noon 1 .muted, .consume 0 0]

theorem mutedRun_client : ∃ c ∈ (Machine.run step ⟨.empty, []⟩ mutedRun).clients, ∃ since ∈ c.since,
    records 1 since = 1 ∧ events 1 since.delivered = 0 := by
  have found : (((Machine.run step ⟨.empty, []⟩ mutedRun).clients[0]?).bind Client.since).map
      (fun since => (records 1 since, events 1 since.delivered)) = some (1, 0) := by decide +kernel
  obtain ⟨since, there, numbers⟩ := Option.map_eq_some_iff.mp found
  obtain ⟨c, here, recorded⟩ := Option.bind_eq_some_iff.mp there
  exact ⟨c, List.mem_of_getElem? here, since, recorded, Prod.mk.inj numbers⟩

theorem run_counts_muted : ∃ c ∈ (Machine.run step ⟨.empty, []⟩ mutedRun).clients, ∃ since ∈ c.since,
    ¬ ∀ s ∈ since.delivered, Origin.isTriaged s.origin = true → about s.message ≠ some 1 := by
  obtain ⟨c, mem, since, there, recorded, seen⟩ := mutedRun_client
  refine ⟨c, mem, since, there, fun plain => ?_⟩
  have same := (run_counts_iff .empty mutedRun c mem since there 1).mpr plain
  omega

/-- A muted issue counts as an arrival. -/
theorem run_counts_triage : ¬ ∀ (db : Db) (actions : List Action), ∀ c ∈ (Machine.run step ⟨db, []⟩ actions).clients,
    ∀ since ∈ c.since, ∀ issueId, records issueId since = events issueId since.delivered := by
  intro counts
  obtain ⟨c, mem, since, there, recorded, seen⟩ := mutedRun_client
  have same := counts .empty mutedRun c mem since there 1
  omega

end Errex.Proof.Arrivals
